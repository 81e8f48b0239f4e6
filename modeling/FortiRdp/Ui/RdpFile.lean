/-
RDP files (`RdpFile`): one option in each line, `name:type:value`. The reader collects the parts of all lines in one vector
and takes its first three for every option, so a file reads as copies of one option.
-/
import FortiRdp.Util.SplitText
import FortiRdp.Util.TextFile

namespace FortiRdp.Ui

open Util

structure RdpOption where
  optionName : Bytes
  optionType : Bytes
  optionValue : Bytes
  deriving DecidableEq, Repr

/-- `RdpFile`, without its path. -/
structure RdpFile where
  optionsList : List RdpOption
  deriving DecidableEq, Repr

/-- The line of an option, without its end. -/
def RdpOption.line (o : RdpOption) : Bytes := o.optionName ++ 58 :: (o.optionType ++ 58 :: o.optionValue)

namespace RdpFile

def empty (r : RdpFile) : Bool := r.optionsList.length == 0

/-- `find`: the position of the option. -/
def find (r : RdpFile) (name : Bytes) : Option Nat := r.optionsList.findIdx? fun o => iequal name o.optionName

def addOption (r : RdpFile) (name type value : Bytes) : RdpFile :=
  { optionsList := r.optionsList ++ [{ optionName := name, optionType := type, optionValue := value }] }

/-- `set`, of an option of any type. -/
def set (r : RdpFile) (name type value : Bytes) : RdpFile :=
  match r.find name with
  | some i =>
    { optionsList := r.optionsList.modify i fun o => { o with optionType := type, optionValue := value } }
  | none => r.addOption name type value

/-- `set`, of a number. -/
def setInt (r : RdpFile) (name : Bytes) (value : Int) : RdpFile := r.set name (ascii "i") (ascii (toString value))

/-- `set`, of a string. -/
def setString (r : RdpFile) (name value : Bytes) : RdpFile := r.set name (ascii "s") value

/-- `get`: the type and the value. -/
def get (r : RdpFile) (name : Bytes) : Option (Bytes × Bytes) :=
  (r.find name).bind fun i => r.optionsList[i]?.map fun o => (o.optionType, o.optionValue)

/-- The loop of `read`. The vector of the parts is never cleared; where three parts are added it has three. -/
def readLoop : List Bytes → List Bytes → RdpFile → RdpFile
  | [], _, r => r
  | line :: lines, params, r =>
    if line.length > 1024 then r
    else
      let (count, params) := splitInto line 58 params
      readLoop lines params
        (if count = 3 then r.addOption (params.getD 0 []) (params.getD 1 []) (params.getD 2 []) else r)

/-- `read`, with the bytes of the file when it can be opened. -/
def read (r : RdpFile) (file : Option Bytes) : Bool × RdpFile :=
  match file with
  | none => (false, r)
  | some s => (true, readLoop (getlines (textIn s)) [] r)

/-- `write`: whether the file can be opened, and what it is before. Opening it empties it. -/
def write (r : RdpFile) (isOpen : Bool) (file : Option Bytes) : Bool × Option Bytes :=
  if isOpen = true then
    if r.empty = false then (true, some (textOut (r.optionsList.flatMap fun o => o.line ++ [10])))
    else (false, some [])
  else (false, file)

end RdpFile

/-! ## Names -/

theorem modify_names (options : List RdpOption) (i : Nat) {f : RdpOption → RdpOption}
    (hf : ∀ o, (f o).optionName = o.optionName) :
    (options.modify i f).map RdpOption.optionName = options.map RdpOption.optionName := by
  refine List.ext_getElem? fun j => ?_
  rw [List.getElem?_map, List.getElem?_map, List.getElem?_modify, Option.map_eq_map, Option.map_map]
  congr 1
  funext o
  dsimp only [Function.comp]
  split
  · exact hf o
  · rfl

/-- The position that is found depends on the names only. -/
theorem find_names (r : RdpFile) (name : Bytes) :
    r.find name = (r.optionsList.map RdpOption.optionName).findIdx? (iequal name) := by
  rw [List.findIdx?_map]
  rfl

/-- What was set is what is got. -/
theorem get_set (r : RdpFile) (name type value : Bytes) : (r.set name type value).get name = some (type, value) := by
  have hself : iequal name name = true := BEq.rfl
  unfold RdpFile.get RdpFile.set
  cases hfind : r.find name with
  | some i =>
    have hfound : RdpFile.find
        ⟨r.optionsList.modify i fun o => { o with optionType := type, optionValue := value }⟩ name = some i := by
      rw [← hfind, find_names, find_names, modify_names]
      exact fun _ => rfl
    obtain ⟨hi, -⟩ := List.findIdx?_eq_some_iff_getElem.1 hfind
    dsimp only
    rw [hfound, Option.bind_some, List.getElem?_modify_eq, List.getElem?_eq_getElem hi]
    rfl
  | none =>
    have hfound : (r.addOption name type value).find name = some r.optionsList.length := by
      have hlast : (r.addOption name type value).find name = (r.find name).or
          (([name].findIdx? (iequal name)).map fun i => i + r.optionsList.length) := List.findIdx?_append
      rw [hlast, hfind, List.findIdx?_singleton, if_pos hself, Option.none_or, Option.map_some, Nat.zero_add]
    dsimp only
    rw [hfound, Option.bind_some]
    unfold RdpFile.addOption
    rw [List.getElem?_concat_length]
    rfl

/-- `set` keeps the names different, so that `find` has at most one option to find. -/
theorem set_names {r : RdpFile} (h : r.optionsList.Pairwise fun a b => iequal a.optionName b.optionName = false)
    (name type value : Bytes) :
    (r.set name type value).optionsList.Pairwise fun a b => iequal a.optionName b.optionName = false := by
  unfold RdpFile.set
  cases hfind : r.find name with
  | some i =>
    have hnames : (r.optionsList.map RdpOption.optionName).Pairwise fun a b => iequal a b = false := List.pairwise_map.2 h
    rw [← modify_names r.optionsList i (f := fun o => { o with optionType := type, optionValue := value }) fun _ => rfl]
      at hnames
    exact List.pairwise_map.1 hnames
  | none =>
    refine List.pairwise_append.2 ⟨h, List.pairwise_singleton _ _, fun a ha b hb => ?_⟩
    rw [List.mem_singleton.1 hb]
    have hnew := List.findIdx?_eq_none_iff.1 hfind a ha
    unfold iequal at hnew ⊢
    rwa [BEq.comm]

/-! ## What can be written and read -/

/-- Options that a file can hold: their names are different, and names, types and values can be told apart in a line of the
length that the reader accepts. -/
structure Regular (options : List RdpOption) : Prop where
  names : options.Pairwise fun a b => iequal a.optionName b.optionName = false
  plain : ∀ o ∈ options, 58 ∉ o.optionName ∧ 58 ∉ o.optionType ∧ 10 ∉ o.line
  short : ∀ o ∈ options, o.line.length ≤ 1024

/-- No option, or one whose value has no colon, with neither a NUL nor a Ctrl-Z in its line. -/
def ReadsBack (options : List RdpOption) : Prop :=
  options = [] ∨ ∃ o, options = [o] ∧ 58 ∉ o.optionValue ∧ 0 ∉ o.line ∧ 26 ∉ o.line

/-- A line of the form `name:type:value`. -/
def OptionLine (line : Bytes) : Prop :=
  ∃ name type value, 58 ∉ name ∧ 58 ∉ type ∧ line = name ++ 58 :: (type ++ 58 :: value)

/-- The lines that the reader comes to. -/
def visible (lines : List Bytes) : List Bytes := lines.takeWhile fun line => line.length ≤ 1024

/-- The parts of the lines that the reader comes to. -/
def parts (lines : List Bytes) : List Bytes := (visible lines).flatMap (split 58)

/-- Whether a line has three parts. -/
def threeParts (line : Bytes) : Bool := (split 58 line).length == 3

/-- The reader ends before the line, it finds no option behind it, or the first three parts of the file are the same with the
line and without it. -/
def Harmless (pre : List Bytes) (bad : Bytes) (post : List Bytes) : Prop :=
  (∃ line ∈ pre, 1024 < line.length) ∨ (∀ line ∈ visible post, threeParts line = false) ∨
    bad.length ≤ 1024 ∧ (parts (pre ++ bad :: post)).take 3 = (parts (pre ++ post)).take 3

/-! ## Copies of one option -/

/-- The number of options that the reader finds. -/
def optionCount (lines : List Bytes) : Nat := (visible lines).countP threeParts

/-- The option made of the first three parts. -/
def firstOption (params : List Bytes) : RdpOption :=
  { optionName := params.getD 0 [], optionType := params.getD 1 [], optionValue := params.getD 2 [] }

/-- Parts behind three others are not looked at. -/
theorem firstOption_append {params : List Bytes} (h : 3 ≤ params.length) (more : List Bytes) :
    firstOption (params ++ more) = firstOption params := by
  match params, h with
  | _ :: _ :: _ :: _, _ => rfl

theorem firstOption_eq_iff {params params' : List Bytes} (h : 3 ≤ params.length) (h' : 3 ≤ params'.length) :
    firstOption params = firstOption params' ↔ params.take 3 = params'.take 3 := by
  match params, h, params', h' with
  | a :: b :: c :: _, _, a' :: b' :: c' :: _, _ =>
    show RdpOption.mk a b c = RdpOption.mk a' b' c' ↔ [a, b, c] = [a', b', c']
    simp

theorem visible_cons_long {line : Bytes} (h : 1024 < line.length) (lines : List Bytes) : visible (line :: lines) = [] :=
  List.takeWhile_cons_of_neg (by simpa using h)

theorem visible_cons_short {line : Bytes} (h : ¬ 1024 < line.length) (lines : List Bytes) :
    visible (line :: lines) = line :: visible lines :=
  List.takeWhile_cons_of_pos (by simpa using h)

theorem parts_cons_short {line : Bytes} (h : ¬ 1024 < line.length) (lines : List Bytes) :
    parts (line :: lines) = split 58 line ++ parts lines := by
  unfold parts
  rw [visible_cons_short h, List.flatMap_cons]

/-- The options that are read are copies of the one made of the first three parts, as many as there are lines with three. -/
theorem readLoop_eq : ∀ (lines params : List Bytes) (r : RdpFile), (RdpFile.readLoop lines params r).optionsList =
    r.optionsList ++ List.replicate (optionCount lines) (firstOption (params ++ parts lines))
  | [], params, r => (List.append_nil _).symm
  | line :: lines, params, r => by
    rw [RdpFile.readLoop]
    unfold optionCount
    by_cases hlong : 1024 < line.length
    · rw [if_pos hlong, visible_cons_long hlong]
      exact (List.append_nil _).symm
    rw [if_neg hlong, visible_cons_short hlong, parts_cons_short hlong, List.countP_cons, ← List.append_assoc]
    unfold splitInto
    dsimp only
    rw [List.length_append, Nat.add_sub_cancel_left, readLoop_eq lines]
    unfold optionCount threeParts
    by_cases hthree : (split 58 line).length = 3
    · have hadded : firstOption (params ++ split 58 line ++ parts lines) = firstOption (params ++ split 58 line) := by
        refine firstOption_append ?_ (parts lines)
        rw [List.length_append, hthree]
        exact Nat.le_add_left 3 _
      rw [if_pos hthree, if_pos (beq_iff_eq.2 hthree), List.replicate_succ, hadded]
      exact List.append_assoc _ _ _
    · rw [if_neg hthree, if_neg (mt beq_iff_eq.1 hthree)]
      rfl

theorem read_eq (r : RdpFile) (file : Bytes) : (r.read (some file)).2.optionsList = r.optionsList ++
    List.replicate (optionCount (getlines (textIn file))) (firstOption (parts (getlines (textIn file)))) :=
  readLoop_eq _ [] r

/-- What is read from one file is what is read from the other when it has as many options, and none or the same ones. -/
theorem read_eq_iff (r : RdpFile) (file file' : Bytes) : r.read (some file) = r.read (some file') ↔
    optionCount (getlines (textIn file)) = optionCount (getlines (textIn file')) ∧
      (optionCount (getlines (textIn file)) = 0 ∨
        firstOption (parts (getlines (textIn file))) = firstOption (parts (getlines (textIn file')))) := by
  rw [← List.replicate_inj, ← List.append_right_inj r.optionsList, ← read_eq, ← read_eq]
  constructor
  · exact fun h => congrArg (fun x => x.2.optionsList) h
  · intro h
    exact Prod.ext rfl (congrArg RdpFile.mk h)

/-- A line with three parts brings three. -/
theorem three_le_parts {lines : List Bytes} (h : optionCount lines ≠ 0) : 3 ≤ (parts lines).length := by
  obtain ⟨line, hline, hthree⟩ := List.countP_pos_iff.1 (Nat.pos_of_ne_zero h)
  have hle : (split 58 line).length ≤ (parts lines).length := by
    unfold parts
    rw [List.length_flatMap]
    exact List.le_sum_of_mem (List.mem_map_of_mem hline)
  rwa [eq_of_beq hthree] at hle

/-! ## A line that is no option -/

/-- A line with three parts is of the form `name:type:value`. -/
theorem threeParts_of_not {bad : Bytes} (h : ¬ OptionLine bad) : threeParts bad = false := by
  refine Bool.eq_false_iff.2 fun hthree => h ?_
  obtain ⟨a, b, c, hsplit⟩ := List.length_eq_three.1 (eq_of_beq hthree)
  obtain ⟨rest, hrest⟩ := eq_of_split hsplit
  have hmem : a ∈ split 58 bad ∧ b ∈ split 58 bad := by
    rw [hsplit]
    exact ⟨List.mem_cons_self .., List.mem_cons_of_mem _ (List.mem_cons_self ..)⟩
  exact ⟨a, b, rest, (mem_split hmem.1).1, (mem_split hmem.2).1, hrest⟩

theorem visible_long {pre : List Bytes} (h : ∃ line ∈ pre, 1024 < line.length) (post : List Bytes) :
    visible (pre ++ post) = visible pre := by
  induction pre with
  | nil =>
    obtain ⟨_, hline, -⟩ := h
    cases hline
  | cons line pre ih =>
    rw [List.cons_append]
    by_cases hlong : 1024 < line.length
    · rw [visible_cons_long hlong, visible_cons_long hlong]
    · obtain ⟨line', hline', hlong'⟩ := h
      rcases List.mem_cons.1 hline' with rfl | hpre
      · exact absurd hlong' hlong
      · rw [visible_cons_short hlong, visible_cons_short hlong, ih ⟨line', hpre, hlong'⟩]

theorem visible_short {pre : List Bytes} (h : ¬ ∃ line ∈ pre, 1024 < line.length) (post : List Bytes) :
    visible (pre ++ post) = pre ++ visible post :=
  List.takeWhile_append_of_pos fun line hline => by simpa using fun hlong => h ⟨line, hline, hlong⟩

theorem visible_all {pre : List Bytes} (h : ¬ ∃ line ∈ pre, 1024 < line.length) : visible pre = pre := by
  have hpre := visible_short h []
  rwa [List.append_nil, show visible [] = [] from rfl, List.append_nil] at hpre

theorem parts_short {pre : List Bytes} (h : ¬ ∃ line ∈ pre, 1024 < line.length) (post : List Bytes) :
    parts (pre ++ post) = parts pre ++ parts post := by
  unfold parts
  rw [visible_short h, visible_all h, List.flatMap_append]

theorem optionCount_short {pre : List Bytes} (h : ¬ ∃ line ∈ pre, 1024 < line.length) (post : List Bytes) :
    optionCount (pre ++ post) = optionCount pre + optionCount post := by
  unfold optionCount
  rw [visible_short h, visible_all h, List.countP_append]

/-- A short line without an option takes part in the first three parts only. -/
theorem skip_short_iff {pre post : List Bytes} {bad : Bytes} (hpre : ¬ ∃ line ∈ pre, 1024 < line.length)
    (hbad : ¬ 1024 < bad.length) (hthree : threeParts bad = false) :
    (optionCount (pre ++ bad :: post) = optionCount (pre ++ post) ∧ (optionCount (pre ++ bad :: post) = 0 ∨
      firstOption (parts (pre ++ bad :: post)) = firstOption (parts (pre ++ post)))) ↔
    (optionCount post = 0 ∨ (parts (pre ++ bad :: post)).take 3 = (parts (pre ++ post)).take 3) := by
  have hskip : optionCount (bad :: post) = optionCount post := by
    unfold optionCount
    rw [visible_cons_short hbad, List.countP_cons_of_neg (by rw [hthree]; exact Bool.false_ne_true)]
  have hcount : optionCount (pre ++ bad :: post) = optionCount (pre ++ post) := by
    rw [optionCount_short hpre, optionCount_short hpre, hskip]
  rw [and_iff_right hcount, hcount]
  by_cases hfull : 3 ≤ (parts pre).length
  · -- the three parts are those of the lines before
    rw [parts_short hpre, parts_short hpre, firstOption_append hfull, firstOption_append hfull,
      List.take_append_of_le_length hfull, List.take_append_of_le_length hfull]
    exact iff_of_true (.inr rfl) (.inr rfl)
  have hnone : optionCount pre = 0 := not_not.1 fun hne => hfull (three_le_parts hne)
  have hpost : optionCount (pre ++ post) = optionCount post := by
    rw [optionCount_short hpre, hnone, Nat.zero_add]
  rw [hpost]
  by_cases hzero : optionCount post = 0
  · exact iff_of_true (.inl hzero) (.inl hzero)
  · rw [firstOption_eq_iff (three_le_parts (by rw [hcount, hpost]; exact hzero)) (three_le_parts (by rw [hpost]; exact hzero))]

/-- A line that is too long takes the options behind it away. -/
theorem skip_long_iff {pre post : List Bytes} {bad : Bytes} (hpre : ¬ ∃ line ∈ pre, 1024 < line.length)
    (hbad : 1024 < bad.length) :
    (optionCount (pre ++ bad :: post) = optionCount (pre ++ post) ∧ (optionCount (pre ++ bad :: post) = 0 ∨
      firstOption (parts (pre ++ bad :: post)) = firstOption (parts (pre ++ post)))) ↔ optionCount post = 0 := by
  have hend : optionCount (bad :: post) = 0 ∧ parts (bad :: post) = [] := by
    unfold optionCount parts
    rw [visible_cons_long hbad]
    exact ⟨rfl, rfl⟩
  rw [optionCount_short hpre, optionCount_short hpre, hend.1, parts_short hpre, parts_short hpre, hend.2, List.append_nil,
    Nat.add_zero]
  constructor
  · rintro ⟨hcount, -⟩
    omega
  · intro hzero
    refine ⟨by omega, ?_⟩
    by_cases hnone : optionCount pre = 0
    · exact .inl hnone
    · exact .inr (firstOption_append (three_le_parts hnone) _).symm

/-- A line that is no option leaves the others alone exactly when it is harmless. -/
theorem read_without_iff (r : RdpFile) {file file' : Bytes} {pre post : List Bytes} {bad : Bytes} (hbad : ¬ OptionLine bad)
    (hfile : getlines (textIn file) = pre ++ bad :: post) (hfile' : getlines (textIn file') = pre ++ post) :
    r.read (some file) = r.read (some file') ↔ Harmless pre bad post := by
  have hnone : (∀ line ∈ visible post, threeParts line = false) ↔ optionCount post = 0 := by
    unfold optionCount
    rw [List.countP_eq_zero]
    exact forall₂_congr fun line _ => Bool.eq_false_iff
  rw [read_eq_iff, hfile, hfile']
  unfold Harmless
  rw [hnone]
  by_cases hpre : ∃ line ∈ pre, 1024 < line.length
  · refine iff_of_true ?_ (.inl hpre)
    unfold optionCount parts
    rw [visible_long hpre, visible_long hpre]
    exact ⟨rfl, .inr rfl⟩
  rw [or_iff_right hpre]
  by_cases hlong : 1024 < bad.length
  · rw [skip_long_iff hpre hlong]
    exact (or_iff_left fun hshort => absurd hlong (Nat.not_lt.2 hshort.1)).symm
  · rw [skip_short_iff hpre hlong (threeParts_of_not hbad), and_iff_right (Nat.not_lt.1 hlong)]

/-! ## Writing and reading back -/

theorem firstOption_mem {params : List Bytes} (h : 3 ≤ params.length) : (firstOption params).optionName ∈ params ∧
    (firstOption params).optionType ∈ params ∧ (firstOption params).optionValue ∈ params := by
  match params, h with
  | a :: b :: c :: _, _ =>
    refine ⟨List.mem_cons_self .., List.mem_cons_of_mem _ (List.mem_cons_self ..), ?_⟩
    exact List.mem_cons_of_mem _ (List.mem_cons_of_mem _ (List.mem_cons_self ..))

/-- A part that is read has no colon, no NUL and no Ctrl-Z. -/
theorem mem_parts {file part : Bytes} (h : part ∈ parts (getlines (textIn file))) : 58 ∉ part ∧ 0 ∉ part ∧ 26 ∉ part := by
  obtain ⟨line, hline, hpart⟩ := List.mem_flatMap.1 h
  obtain ⟨hcolon, hnul, hmem⟩ := mem_split hpart
  refine ⟨hcolon, hnul, fun hend => ctrlZ_textIn file ?_⟩
  exact mem_getlines (List.takeWhile_subset _ hline) (hmem 26 hend)

/-- The line of an option is split into its parts again. -/
theorem split_line {o : RdpOption} (hname : 58 ∉ o.optionName) (htype : 58 ∉ o.optionType) (hvalue : 58 ∉ o.optionValue)
    (hnul : 0 ∉ o.line) : split 58 o.line = [o.optionName, o.optionType, o.optionValue] := by
  rw [split_eq, cStr_eq hnul, RdpOption.line, List.splitOn_append_cons_self_of_not_mem hname,
    List.splitOn_append_cons_self_of_not_mem htype, List.splitOn_eq_singleton hvalue]

/-- Options with different names are copies of one option only when they are at most one. -/
theorem copies_le_one {options : List RdpOption} {n : Nat} {o : RdpOption} (hcopies : options = List.replicate n o)
    (hnames : options.Pairwise fun a b => iequal a.optionName b.optionName = false) : n ≤ 1 := by
  subst hcopies
  match n, hnames with
  | 0, _ | 1, _ => decide
  | n + 2, hnames =>
    rw [List.replicate_succ, List.replicate_succ] at hnames
    have hne := (List.pairwise_cons.1 hnames).1 o (List.mem_cons_self ..)
    unfold iequal at hne
    rw [BEq.rfl] at hne
    cases hne

theorem mem_line {o : RdpOption} {c : UInt8} (hc : c ≠ 58) (hname : c ∉ o.optionName) (htype : c ∉ o.optionType)
    (hvalue : c ∉ o.optionValue) : c ∉ o.line := by
  unfold RdpOption.line
  simp only [List.mem_append, List.mem_cons, not_or]
  exact ⟨hname, hc, htype, hc, hvalue⟩

/-- The line of a single option is read as it was written. -/
theorem read_single {o : RdpOption} (h : Regular [o]) (hcolon : 58 ∉ o.optionValue) (hnul : 0 ∉ o.line) (hend : 26 ∉ o.line) :
    (RdpFile.read { optionsList := [] } (some (textOut (o.line ++ [10])))).2 = { optionsList := [o] } := by
  obtain ⟨hname, htype, hbreak⟩ := h.plain o (List.mem_singleton_self o)
  have hshort : ¬ 1024 < o.line.length := Nat.not_lt.2 (h.short o (List.mem_singleton_self o))
  have hsplit := split_line hname htype hcolon hnul
  have hlines : getlines (textIn (textOut (o.line ++ [10]))) = [o.line] := by
    rw [textIn_textOut, List.takeWhile_eq_self_iff.2, getlines_cons hbreak]
    · rfl
    · intro c hc
      rcases List.mem_append.1 hc with hc | hc
      · exact decide_eq_true fun heq => hend (heq ▸ hc)
      · rw [List.mem_singleton.1 hc]
        rfl
  have hparts : parts [o.line] = [o.optionName, o.optionType, o.optionValue] := by
    rw [parts_cons_short hshort, hsplit]
    rfl
  have hcount : optionCount [o.line] = 1 := by
    unfold optionCount
    rw [visible_cons_short hshort, List.countP_cons_of_pos (by rw [threeParts, hsplit]; rfl)]
    rfl
  have hread := read_eq { optionsList := [] } (textOut (o.line ++ [10]))
  rw [hlines, hparts, hcount] at hread
  exact congrArg RdpFile.mk hread

/-- What is written is read back exactly when it is at most one option that has no colon in its value. -/
theorem readsBack_iff {options : List RdpOption} (h : Regular options) (before : Option Bytes) :
    (RdpFile.read { optionsList := [] } (RdpFile.write { optionsList := options } true before).2).2 =
      { optionsList := options } ↔ ReadsBack options := by
  by_cases hempty : options = []
  · subst hempty
    exact iff_of_true rfl (.inl rfl)
  have hwrite : (RdpFile.write { optionsList := options } true before).2 =
      some (textOut (options.flatMap fun o => o.line ++ [10])) := by
    unfold RdpFile.write RdpFile.empty
    rw [if_pos rfl, if_pos (by simpa using hempty)]
  rw [hwrite]
  constructor
  · intro hread
    have hcopies := read_eq { optionsList := [] } (textOut (options.flatMap fun o => o.line ++ [10]))
    rw [hread, List.nil_append] at hcopies
    have hle := copies_le_one hcopies h.names
    have hne : optionCount (getlines (textIn (textOut (options.flatMap fun o => o.line ++ [10])))) ≠ 0 := by
      intro hzero
      rw [hzero] at hcopies
      exact hempty hcopies
    obtain ⟨hname, htype, hvalue⟩ := firstOption_mem (three_le_parts hne)
    rw [Nat.le_antisymm hle (Nat.pos_of_ne_zero hne)] at hcopies
    refine .inr ⟨_, hcopies, (mem_parts hvalue).1, mem_line (by decide) ?_ ?_ ?_, mem_line (by decide) ?_ ?_ ?_⟩
    · exact (mem_parts hname).2.1
    · exact (mem_parts htype).2.1
    · exact (mem_parts hvalue).2.1
    · exact (mem_parts hname).2.2
    · exact (mem_parts htype).2.2
    · exact (mem_parts hvalue).2.2
  · rintro (hnil | ⟨o, rfl, hcolon, hnul, hend⟩)
    · exact absurd hnil hempty
    · rw [List.flatMap_singleton]
      exact read_single h hcolon hnul hend

/-- A file is read back exactly when it holds at most one option without a colon in its value, and a line that is no option is
skipped exactly when it is harmless. -/
theorem rdpFile_iff (options : List RdpOption) (r : RdpFile) :
    (Regular options → ∀ before : Option Bytes,
      ((RdpFile.read { optionsList := [] } (RdpFile.write { optionsList := options } true before).2).2 =
        { optionsList := options } ↔ ReadsBack options)) ∧
    ∀ (file file' : Bytes) (pre post : List Bytes) (bad : Bytes), ¬ OptionLine bad →
      getlines (textIn file) = pre ++ bad :: post → getlines (textIn file') = pre ++ post →
        (r.read (some file) = r.read (some file') ↔ Harmless pre bad post) :=
  ⟨readsBack_iff, fun _ _ _ _ _ hbad hfile hfile' => read_without_iff r hbad hfile hfile'⟩

/-- A number of one option. -/
def desktopWidth : RdpOption :=
  { optionName := ascii "desktopwidth", optionType := ascii "i", optionValue := ascii "800" }

def domain : RdpOption := { optionName := ascii "domain", optionType := ascii "s", optionValue := ascii "d" }

/-- The value is a host with its port. -/
def fullAddress : RdpOption :=
  { optionName := ascii "full address", optionType := ascii "s", optionValue := ascii "h:3389" }

/-- What is read back of some options. -/
def RdpFile.back (options : List RdpOption) : RdpFile :=
  (RdpFile.read { optionsList := [] } (RdpFile.write { optionsList := options } true none).2).2

theorem not_optionLine : ¬ OptionLine (ascii "rdp") := by
  rintro ⟨name, type, value, -, -, hline⟩
  have hcolon : 58 ∈ ascii "rdp" := hline ▸ List.mem_append_right _ (List.mem_cons_self ..)
  exact absurd hcolon (by decide)

/-- Two options are read as twice the first one, a value with a colon is not read, and a line in front of an option moves its
parts. -/
theorem rdpFile_copies :
    (Regular [desktopWidth, domain] ∧
      RdpFile.back [desktopWidth, domain] = { optionsList := [desktopWidth, desktopWidth] }) ∧
    (Regular [fullAddress] ∧ RdpFile.back [fullAddress] = { optionsList := [] }) ∧ ¬ OptionLine (ascii "rdp") ∧
    RdpFile.read { optionsList := [] } (some (textOut (ascii "rdp" ++ [10] ++ domain.line ++ [10]))) ≠
      RdpFile.read { optionsList := [] } (some (textOut (domain.line ++ [10]))) :=
  ⟨⟨⟨by decide, by decide, by decide⟩, by decide⟩, ⟨⟨by decide, by decide, by decide⟩, by decide⟩, not_optionLine, by decide⟩

/-- A single option is read back, and a line behind one with three parts is skipped. -/
theorem rdpFile_single :
    (RdpFile.read { optionsList := [] } (RdpFile.write { optionsList := [desktopWidth] } true none).2).2 =
      { optionsList := [desktopWidth] } ∧
    RdpFile.read { optionsList := [] } (some (textOut (domain.line ++ [10] ++ ascii "rdp" ++ [10] ++ domain.line))) =
      RdpFile.read { optionsList := [] } (some (textOut (domain.line ++ [10] ++ domain.line))) := by
  obtain ⟨hback, hskip⟩ := rdpFile_iff [desktopWidth] { optionsList := [] }
  refine ⟨(hback ⟨by decide, by decide, by decide⟩ none).2 (.inr ⟨_, rfl, by decide⟩), ?_⟩
  exact (hskip _ _ [domain.line] [domain.line] (ascii "rdp") not_optionLine (by decide) (by decide)).2
    (.inr (.inr (by decide)))

end FortiRdp.Ui
