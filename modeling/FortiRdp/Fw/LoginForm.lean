/-
The form of the login page. The user name, the password and the realm are encoded when they are filled in;
the codes that the user types later, and the values that are copied from an answer, are not. What the user
typed is kept beside the form, so that it can be compared with what a reader of the posted body finds.
-/
import FortiRdp.Fw.FirewallClient
import FortiRdp.Http.UrlCoding
import FortiRdp.Run.Machine

namespace FortiRdp.Fw

open Util Http

/-! ## Reading a form -/

/-- Some readers take a plus for a blank. -/
def blankPlus (c : UInt8) : UInt8 := if c = 43 then 32 else c

/-- A text of a form, decoded. -/
def decodeText (plus : Bool) (text : Bytes) : Bytes := percentDecode (if plus then text.map blankPlus else text)

/-- The name and the value of a part, at the first equals sign. -/
def formField (plus : Bool) (part : Bytes) : Bytes × Bytes :=
  match find 61 part with
  | some pos => (decodeText plus (part.take pos), decodeText plus (part.drop (pos + 1)))
  | none => (decodeText plus part, [])

/-- The fields of a body, split at the ampersands. -/
def formFields (plus : Bool) (body : Bytes) : List (Bytes × Bytes) := (body.splitOn 38).map (formField plus)

/-- The fields that an entry of a map comes to. -/
def entryFields (plus : Bool) (e : Bytes × Bytes) : List (Bytes × Bytes) := formFields plus (e.1 ++ 61 :: e.2)

theorem formFields_append (plus : Bool) (a b : Bytes) :
    formFields plus (a ++ 38 :: b) = formFields plus a ++ formFields plus b := by
  unfold formFields
  rw [List.splitOn_append_cons_self, List.map_append]

theorem formFields_entries (plus : Bool) : ∀ (e : Bytes × Bytes) (l : List (Bytes × Bytes)),
    formFields plus (((e :: l).flatMap fun e => e.1 ++ [61] ++ e.2 ++ [38]).dropLast) = (e :: l).flatMap (entryFields plus)
  | e, [] => by
    rw [List.flatMap_singleton, List.dropLast_concat, List.flatMap_singleton, List.append_assoc]
    rfl
  | e, d :: l => by
    have ih := formFields_entries plus d l
    have hne : ((d :: l).flatMap fun e => e.1 ++ [61] ++ e.2 ++ [38]) ≠ [] := by simp
    rw [List.flatMap_cons, List.dropLast_append_of_ne_nil hne, List.append_assoc _ [38], List.singleton_append,
      formFields_append, ih, List.append_assoc]
    rfl

/-- A joined map is read entry by entry. -/
theorem formFields_join (plus : Bool) {m : StringMap} (h : m.entries ≠ []) :
    formFields plus (m.join (ascii "&")) = m.entries.flatMap (entryFields plus) := by
  obtain ⟨e, l, hl⟩ := List.exists_cons_of_ne_nil h
  have hjoin : m.join (ascii "&") = (m.entries.flatMap fun e => e.1 ++ [61] ++ e.2 ++ [38]).dropLast := by
    unfold StringMap.join
    rw [List.dropLast_eq_take]
    rfl
  rw [hjoin, hl, formFields_entries]

/-! ## Plain texts -/

/-- A text that stands for itself in a form. -/
def Plain (plus : Bool) (text : Bytes) : Prop := 38 ∉ text ∧ (plus = true → 43 ∉ text) ∧ hasTriple text = false

instance (plus : Bool) (text : Bytes) : Decidable (Plain plus text) := inferInstanceAs (Decidable (_ ∧ _))

theorem blankPlus_eq_iff (c : UInt8) : blankPlus c = c ↔ c ≠ 43 := by
  unfold blankPlus
  split
  · rename_i h
    subst h
    decide
  · rename_i h
    exact ⟨fun _ => h, fun _ => rfl⟩

theorem map_blankPlus_eq_iff (text : Bytes) : text.map blankPlus = text ↔ 43 ∉ text := by
  have hself : text.map blankPlus = text.map id ↔ ∀ c ∈ text, blankPlus c = id c := List.map_inj_left
  rw [List.map_id] at hself
  rw [hself]
  constructor
  · intro h hplus
    exact (blankPlus_eq_iff 43).1 (h 43 hplus) rfl
  · intro h c hc
    refine (blankPlus_eq_iff c).2 ?_
    rintro rfl
    exact h hc

theorem isxdigit_blankPlus (c : UInt8) : HttpsClient.isxdigit (blankPlus c) = HttpsClient.isxdigit c := by
  unfold blankPlus
  split
  · rename_i h
    subst h
    decide
  · rfl

theorem startsHex_blankPlus (text : Bytes) : startsHex (text.map blankPlus) = startsHex text := by
  match text with
  | [] => rfl
  | [_] => rfl
  | c1 :: c2 :: text =>
    show (HttpsClient.isxdigit (blankPlus c1) && HttpsClient.isxdigit (blankPlus c2)) = _
    rw [isxdigit_blankPlus, isxdigit_blankPlus]
    rfl

theorem hasTriple_blankPlus (text : Bytes) : hasTriple (text.map blankPlus) = hasTriple text := by
  induction text with
  | nil => rfl
  | cons c text ih =>
    have hpercent : (blankPlus c == 37) = (c == 37) := by
      unfold blankPlus
      split
      · rename_i h
        subst h
        decide
      · rfl
    rw [List.map_cons, hasTriple, hasTriple, ih, startsHex_blankPlus, hpercent]

/-- Only a text that has no triple, and no plus that is taken for a blank, is read as itself. -/
theorem decodeText_eq_iff (plus : Bool) (text : Bytes) :
    decodeText plus text = text ↔ (plus = true → 43 ∉ text) ∧ hasTriple text = false := by
  unfold decodeText
  cases plus with
  | false =>
    constructor
    · intro h
      refine ⟨nofun, Bool.eq_false_iff.2 fun htriple => ?_⟩
      have hlt := length_percentDecode_lt htriple
      rw [show percentDecode text = text from h] at hlt
      exact Nat.lt_irrefl _ hlt
    · rintro ⟨-, h⟩
      exact percentDecode_plainText h
  | true =>
    show percentDecode (text.map blankPlus) = text ↔ _
    constructor
    · intro h
      have htriple : hasTriple (text.map blankPlus) = false := Bool.eq_false_iff.2 fun htriple => by
        have hlt := length_percentDecode_lt htriple
        rw [h, List.length_map] at hlt
        exact Nat.lt_irrefl _ hlt
      rw [percentDecode_plainText htriple] at h
      exact ⟨fun _ => (map_blankPlus_eq_iff text).1 h, by rwa [hasTriple_blankPlus] at htriple⟩
    · rintro ⟨hplus, h⟩
      rw [(map_blankPlus_eq_iff text).2 (hplus rfl), percentDecode_plainText h]

/-! ### Encoded texts -/

theorem decodeText_encodeUrl (plus : Bool) (str : Bytes) : decodeText plus (HttpsClient.encodeUrl str) = str := by
  have hplus : (HttpsClient.encodeUrl str).map blankPlus = HttpsClient.encodeUrl str :=
    (map_blankPlus_eq_iff _).2 (not_mem_encodeUrl (by decide) (by decide) (by decide) str)
  have hdecode := percentDecode_encodeUrl str []
  rw [List.append_nil, show percentDecode [] = [] from rfl, List.append_nil] at hdecode
  unfold decodeText
  rw [hplus, ite_self, hdecode]

/-! ## Entries -/

theorem splitOn_append_left {c : UInt8} {name : Bytes} (h : c ∉ name) (text : Bytes) :
    ∃ first rest, text.splitOn c = first :: rest ∧ (name ++ text).splitOn c = (name ++ first) :: rest := by
  induction name with
  | nil =>
    obtain ⟨first, rest, hsplit⟩ := List.exists_cons_of_ne_nil (List.splitOn_ne_nil c text)
    exact ⟨first, rest, hsplit, hsplit⟩
  | cons d name ih =>
    obtain ⟨hd, hname⟩ := not_or.1 (mt List.mem_cons.2 h)
    obtain ⟨first, rest, hsplit, happend⟩ := ih hname
    refine ⟨first, rest, hsplit, ?_⟩
    rw [List.cons_append, List.splitOn_cons_eq_if_modifyHead, if_neg (by simpa using Ne.symm hd), happend]
    rfl

theorem formField_append (plus : Bool) {name : Bytes} (h : 61 ∉ name) (value : Bytes) :
    formField plus (name ++ 61 :: value) = (decodeText plus name, decodeText plus value) := by
  unfold formField
  rw [find_append h]
  simp

/-- The first field has the name of the entry, when the name is plain. -/
theorem entryFields_eq {plus : Bool} {name : Bytes} (hname : Plain plus name) (hequal : 61 ∉ name) (value : Bytes) :
    ∃ first rest, value.splitOn 38 = first :: rest ∧
      entryFields plus (name, value) = (name, decodeText plus first) :: rest.map (formField plus) := by
  obtain ⟨hamp, hdecode⟩ := hname
  have hself : decodeText plus name = name := (decodeText_eq_iff plus name).2 hdecode
  have hprefix : 38 ∉ name ++ [61] := by simp [hamp]
  obtain ⟨first, rest, hsplit, happend⟩ := splitOn_append_left hprefix value
  rw [List.append_assoc, List.append_assoc] at happend
  refine ⟨first, rest, hsplit, ?_⟩
  unfold entryFields formFields
  rw [show name ++ 61 :: value = name ++ ([61] ++ value) from rfl, happend, List.map_cons,
    show name ++ ([61] ++ first) = name ++ 61 :: first from rfl, formField_append plus hequal, hself]

/-- An entry is read as the name and the value only if the value has no ampersand and is decoded to it. -/
theorem entryFields_eq_iff {plus : Bool} {name : Bytes} (hname : Plain plus name) (hequal : 61 ∉ name) (value text : Bytes) :
    entryFields plus (name, value) = [(name, text)] ↔ 38 ∉ value ∧ decodeText plus value = text := by
  obtain ⟨first, rest, hsplit, heq⟩ := entryFields_eq hname hequal value
  rw [heq]
  constructor
  · intro h
    obtain ⟨hfirst, hrest⟩ := List.cons.inj h
    obtain rfl := List.map_eq_nil_iff.1 hrest
    have hamp : 38 ∉ value := fun hmem => by
      obtain ⟨a, b, rfl⟩ := List.append_of_mem hmem
      rw [List.splitOn_append_cons_self] at hsplit
      have hlen := congrArg List.length hsplit
      have ha := List.length_pos_of_ne_nil (List.splitOn_ne_nil 38 a)
      have hb := List.length_pos_of_ne_nil (List.splitOn_ne_nil 38 b)
      rw [List.length_append, List.length_singleton] at hlen
      omega
    rw [List.splitOn_eq_singleton hamp] at hsplit
    obtain ⟨rfl, -⟩ := List.cons.inj hsplit
    exact ⟨hamp, (Prod.mk.inj hfirst).2⟩
  · rintro ⟨hamp, rfl⟩
    rw [List.splitOn_eq_singleton hamp] at hsplit
    obtain ⟨rfl, rfl⟩ := List.cons.inj hsplit
    rfl

/-- Lists made of pieces are equal only piece by piece, when no piece of one is longer. -/
theorem flatMap_eq_iff {α β : Type} {f g : α → List β} : ∀ {l : List α}, (∀ a ∈ l, (g a).length ≤ (f a).length) →
    (l.flatMap f = l.flatMap g ↔ ∀ a ∈ l, f a = g a)
  | [], _ => ⟨fun _ _ h => (List.not_mem_nil h).elim, fun _ => rfl⟩
  | a :: l, h => by
    obtain ⟨ha, hl⟩ := List.forall_mem_cons.1 h
    have ih := flatMap_eq_iff hl
    rw [List.flatMap_cons, List.flatMap_cons, List.forall_mem_cons, ← ih]
    constructor
    · intro heq
      have hle : (l.flatMap g).length ≤ (l.flatMap f).length := by
        rw [List.length_flatMap, List.length_flatMap]
        exact List.sum_le_sum hl
      have hlen := congrArg List.length heq
      rw [List.length_append, List.length_append] at hlen
      exact List.append_inj heq (by omega)
    · rintro ⟨ha, hl⟩
      rw [ha, hl]

/-! ## The parameters of the next round -/

namespace FirewallClient

/-- The prompt for a code, or the error that ends the login. -/
def askFor (retcode : Int) (result : StringMap) : Except Exn (PortalErr ⊕ Bytes) :=
  if retcode = 2 ∨ retcode = 3 ∨ retcode = 4 then (codePrompt retcode result).map .inr
  else if retcode = 5 then .ok (.inr (ascii "Wait next code"))
  else if retcode = 6 then
    if result.getIntValue (ascii "pass_renew") 0 = 1 then .ok (.inl .loginCancelled)
    else .ok (.inr (result.getStrValue (ascii "chal_msg") (ascii "enter code")))
  else .ok (.inl .accessDenied)

/-- The parameters with a code. -/
def codeParams (retcode : Int) (code : Bytes) (params result : StringMap) : StringMap :=
  if retcode = 2 ∨ retcode = 3 ∨ retcode = 4 then
    copyParams result ((params.set (ascii "code") code).set (ascii "code2") []) ["reqid", "polid", "grp"]
  else if retcode = 5 then
    copyParams result ((params.set (ascii "code") []).set (ascii "code2") code) ["reqid", "polid", "grp"]
  else (((copyParams result params ["magic"]).set (ascii "reqid") (joinParams result "reqid" ["polid"])).set
    (ascii "grpid") (joinParams result "grpid" ["pid", "is_chal_rsp"])).set (ascii "credential2") code

/-- The user is asked once, and the parameters depend on the code only. -/
theorem nextParams_eq (askCode : Bytes → Option Bytes) (retcode : Int) (params result : StringMap) :
    nextParams askCode retcode params result = (askFor retcode result).map fun
      | .inl err => .inl err
      | .inr prompt => match askCode prompt with
        | none => .inl .loginCancelled
        | some code => .inr (codeParams retcode code params result) := by
  unfold nextParams askFor codeParams
  by_cases htoken : retcode = 2 ∨ retcode = 3 ∨ retcode = 4
  · simp only [if_pos htoken]
    cases codePrompt retcode result with
    | error e => rfl
    | ok prompt =>
      simp only [Except.map, bind, Except.bind]
      cases askCode prompt <;> rfl
  simp only [if_neg htoken]
  by_cases hnext : retcode = 5
  · simp only [if_pos hnext, Except.map]
    cases askCode (ascii "Wait next code") <;> rfl
  simp only [if_neg hnext]
  split
  · split
    · rfl
    · simp only [Except.map]
      cases askCode (result.getStrValue (ascii "chal_msg") (ascii "enter code")) <;> rfl
  · rfl

/-- A login that ends when a code is asked for ends with an error. -/
theorem nextParams_inl {askCode : Bytes → Option Bytes} {retcode : Int} {params result : StringMap} {err : PortalErr}
    (h : nextParams askCode retcode params result = .ok (.inl err)) : err ≠ .errNone := by
  rw [nextParams_eq] at h
  have hask : ∀ err, askFor retcode result = .ok (.inl err) → err ≠ .errNone := by
    intro err hask
    unfold askFor at hask
    split at hask
    · cases hprompt : codePrompt retcode result with
      | error e =>
        rw [hprompt] at hask
        cases hask
      | ok prompt =>
        rw [hprompt] at hask
        cases hask
    split at hask
    · cases hask
    split at hask
    · split at hask
      · cases hask
        decide
      · cases hask
    · cases hask
      decide
  cases hasked : askFor retcode result with
  | error e =>
    rw [hasked] at h
    cases h
  | ok asked =>
    rw [hasked] at h
    cases asked with
    | inl err' =>
      cases h
      exact hask _ hasked
    | inr prompt =>
      simp only [Except.map] at h
      split at h
      · cases h
        decide
      · cases h

theorem nextParams_inr (askCode : Bytes → Option Bytes) (params : StringMap) {retcode : Int} {result params' : StringMap} :
    nextParams askCode retcode params result = .ok (.inr params') ↔ ∃ prompt code, askFor retcode result = .ok (.inr prompt) ∧
      askCode prompt = some code ∧ codeParams retcode code params result = params' := by
  rw [nextParams_eq]
  constructor
  · intro h
    cases hask : askFor retcode result with
    | error e =>
      rw [hask] at h
      cases h
    | ok ask =>
      rw [hask] at h
      cases ask with
      | inl err => cases h
      | inr prompt =>
        cases hcode : askCode prompt with
        | none =>
          simp [Except.map, hcode] at h
        | some code =>
          simp only [Except.map, hcode, Except.ok.injEq, Sum.inr.injEq] at h
          exact ⟨prompt, code, rfl, hcode, h⟩
  · rintro ⟨prompt, code, hask, hcode, rfl⟩
    rw [hask]
    simp [Except.map, hcode]

end FirewallClient

/-! ## The form along a run -/

/-- The names of what the user types. -/
def userNames : List Bytes := ["username", "credential", "realm", "code", "code2", "credential2"].map ascii

/-- The names of the codes. -/
def codeNames : List Bytes := ["code", "code2", "credential2"].map ascii

/-- The other names. -/
def serverNames : List Bytes := ["ajax", "reqid", "polid", "grp", "magic", "grpid", "peer"].map ascii

/-- The value of a parameter for what the user has typed. -/
def posted (name text : Bytes) : Bytes := if name ∈ codeNames then text else HttpsClient.encodeUrl text

/-- The parameters of the next body, with what the user has typed so far. -/
structure Form where
  params : StringMap
  typed : StringMap

/-- An answer that asks for a code, and the code when the user gives one. -/
structure Reply where
  retcode : Int
  result : StringMap
  code : Option Bytes

/-- What has been typed after a code was given for a return code. -/
def typedAfter (retcode : Int) (code : Bytes) (typed : StringMap) : StringMap :=
  if retcode = 2 ∨ retcode = 3 ∨ retcode = 4 then (typed.set (ascii "code") code).set (ascii "code2") []
  else if retcode = 5 then (typed.set (ascii "code") []).set (ascii "code2") code
  else typed.set (ascii "credential2") code

namespace Form

def start (realm username password : Bytes) : Form where
  params := FirewallClient.loginParams realm username password
  typed :=
    let typed : StringMap := Run.SortedMap.empty.set (ascii "username") username
    let typed := if realm = [] then typed else typed.set (ascii "realm") realm
    typed.set (ascii "credential") password

/-- The form after a round of the login loop. -/
def step : Run.Machine Form Reply := fun f reply =>
  match FirewallClient.nextParams (fun _ => reply.code) reply.retcode f.params reply.result with
  | .ok (.inr params) => some {
      params := match reply.result.getStr (ascii "peer") with
        | none => params
        | some peer => params.set (ascii "peer") peer
      typed := typedAfter reply.retcode (reply.code.getD []) f.typed }
  | _ => none

/-- The fields of the body that is posted. -/
def fields (plus : Bool) (f : Form) : List (Bytes × Bytes) := formFields plus (f.params.join (ascii "&"))

/-- The fields that an entry should come to: what the user has typed is one field. -/
def intended (plus : Bool) (f : Form) (e : Bytes × Bytes) : List (Bytes × Bytes) :=
  match f.typed.get e.1 with
  | some text => [(e.1, text)]
  | none => entryFields plus e

/-- No typed value adds a field or changes one, and the fields with the names of typed values are these values. -/
def Intact (plus : Bool) (f : Form) : Prop :=
  f.fields plus = f.params.entries.flatMap (f.intended plus) ∧
    ∀ field : Bytes × Bytes, field.1 ∈ userNames → (field ∈ f.fields plus ↔ f.typed.get field.1 = some field.2)

/-- The codes are plain, and what follows an ampersand in a value of the server is not a field with the name
of a typed value, unless it repeats this value. -/
def Clean (plus : Bool) (f : Form) : Prop :=
  (∀ name ∈ codeNames, ∀ code, f.typed.get name = some code → Plain plus code) ∧
    ∀ e ∈ f.params.entries, e.1 ∈ serverNames → ∀ part ∈ (e.2.splitOn 38).tail,
      (formField plus part).1 ∈ userNames → f.typed.get (formField plus part).1 = some (formField plus part).2

/-! ### The invariant -/

/-- The parameters have the names of the form, and hold what the user has typed. -/
structure Inv (f : Form) : Prop where
  names : ∀ e ∈ f.params.entries, e.1 ∈ userNames ++ serverNames
  posted : ∀ name ∈ userNames, f.params.get name = (f.typed.get name).map (posted name)
  server : ∀ name ∈ serverNames, f.typed.get name = none

theorem foldName_inj : ∀ a ∈ userNames ++ serverNames, ∀ b ∈ userNames ++ serverNames, foldName a = foldName b → a = b := by
  decide

theorem names_plain (plus : Bool) : ∀ name ∈ userNames ++ serverNames, Plain plus name ∧ 61 ∉ name := by
  revert plus
  decide

theorem userNames_server : ∀ name ∈ userNames, name ∉ serverNames := by
  decide

theorem codeNames_user : ∀ name ∈ codeNames, name ∈ userNames := by
  decide

theorem mem_left {name : Bytes} (h : name ∈ userNames) : name ∈ userNames ++ serverNames := List.mem_append_left _ h

theorem mem_right {name : Bytes} (h : name ∈ serverNames) : name ∈ userNames ++ serverNames := List.mem_append_right _ h

theorem names_set {m : StringMap} {name value : Bytes} (h : ∀ e ∈ m.entries, e.1 ∈ userNames ++ serverNames)
    (hname : name ∈ userNames ++ serverNames) : ∀ e ∈ (m.set name value).entries, e.1 ∈ userNames ++ serverNames := by
  intro e he
  rcases Run.SortedMap.key_setEntry e he with heq | ⟨d, hd, heq⟩
  · rwa [heq]
  · rw [← heq]
    exact h d hd

theorem inv_empty : Inv ⟨.empty, .empty⟩ where
  names := fun _ he => nomatch he
  posted := fun _ _ => rfl
  server := fun _ _ => rfl

/-- A value of the user is typed and posted. -/
theorem inv_enter {params typed : StringMap} {name : Bytes} (hinv : Inv ⟨params, typed⟩) (hname : name ∈ userNames)
    (text : Bytes) : Inv ⟨params.set name (Fw.posted name text), typed.set name text⟩ where
  names := names_set hinv.names (mem_left hname)
  posted := by
    intro other hother
    rw [Run.SortedMap.get_set, Run.SortedMap.get_set]
    split
    · rename_i heq
      obtain rfl := foldName_inj other (mem_left hother) name (mem_left hname) heq
      rfl
    · exact hinv.posted other hother
  server := by
    intro other hother
    rw [Run.SortedMap.get_set, if_neg, hinv.server other hother]
    intro heq
    obtain rfl := foldName_inj other (mem_right hother) name (mem_left hname) heq
    exact userNames_server other hname hother

/-- A value of the server is copied. -/
theorem inv_copy {params typed : StringMap} {name : Bytes} (hinv : Inv ⟨params, typed⟩) (hname : name ∈ serverNames)
    (value : Bytes) : Inv ⟨params.set name value, typed⟩ where
  names := names_set hinv.names (mem_right hname)
  posted := by
    intro other hother
    rw [Run.SortedMap.get_set, if_neg, hinv.posted other hother]
    intro heq
    obtain rfl := foldName_inj other (mem_left hother) name (mem_right hname) heq
    exact userNames_server other hother hname
  server := hinv.server

theorem inv_copyParams {typed : StringMap} (result : StringMap) : ∀ {names : List String} {params : StringMap},
    Inv ⟨params, typed⟩ → (∀ name ∈ names, ascii name ∈ serverNames) →
      Inv ⟨FirewallClient.copyParams result params names, typed⟩
  | [], _, hinv, _ => hinv
  | name :: names, params, hinv, h => by
    obtain ⟨hname, hnames⟩ := List.forall_mem_cons.1 h
    show Inv ⟨FirewallClient.copyParams result (params.set (ascii name) _) names, typed⟩
    exact inv_copyParams result (inv_copy hinv hname _) hnames

theorem inv_start (realm username password : Bytes) : Inv (start realm username password) := by
  have hajax := inv_copy inv_empty (show ascii "ajax" ∈ serverNames by decide) (ascii "1")
  have huser := inv_enter hajax (show ascii "username" ∈ userNames by decide) username
  have hcredential : ascii "credential" ∈ userNames := by decide
  unfold start FirewallClient.loginParams
  split
  · exact inv_enter huser hcredential password
  · exact inv_enter (inv_enter huser (show ascii "realm" ∈ userNames by decide) realm) hcredential password

/-- The code is posted, and values of the server are copied. -/
theorem inv_codeParams {params typed : StringMap} (hinv : Inv ⟨params, typed⟩) (retcode : Int) (code : Bytes)
    (result : StringMap) : Inv ⟨FirewallClient.codeParams retcode code params result, typedAfter retcode code typed⟩ := by
  have hcode : ascii "code" ∈ userNames := by decide
  have hcode2 : ascii "code2" ∈ userNames := by decide
  have hcopied : ∀ name ∈ ["reqid", "polid", "grp"], ascii name ∈ serverNames := by decide
  unfold FirewallClient.codeParams typedAfter
  split
  · exact inv_copyParams result (inv_enter (inv_enter hinv hcode code) hcode2 []) hcopied
  split
  · exact inv_copyParams result (inv_enter (inv_enter hinv hcode []) hcode2 code) hcopied
  · have hmagic := inv_copyParams result hinv (show ∀ name ∈ ["magic"], ascii name ∈ serverNames by decide)
    have hreqid := inv_copy hmagic (show ascii "reqid" ∈ serverNames by decide) (FirewallClient.joinParams result "reqid" ["polid"])
    have hgrpid := inv_copy hreqid (show ascii "grpid" ∈ serverNames by decide)
      (FirewallClient.joinParams result "grpid" ["pid", "is_chal_rsp"])
    exact inv_enter hgrpid (show ascii "credential2" ∈ userNames by decide) code

theorem step_iff {f f' : Form} {reply : Reply} : step f reply = some f' ↔ ∃ prompt code,
    FirewallClient.askFor reply.retcode reply.result = .ok (.inr prompt) ∧ reply.code = some code ∧
      f' = ⟨match reply.result.getStr (ascii "peer") with
        | none => FirewallClient.codeParams reply.retcode code f.params reply.result
        | some peer => (FirewallClient.codeParams reply.retcode code f.params reply.result).set (ascii "peer") peer,
        typedAfter reply.retcode code f.typed⟩ := by
  constructor
  · intro h
    unfold step at h
    split at h
    · rename_i params hnext
      obtain ⟨prompt, code, hask, hcode, rfl⟩ := (FirewallClient.nextParams_inr _ _).1 hnext
      cases h
      exact ⟨prompt, code, hask, hcode, by rw [hcode]; rfl⟩
    · cases h
  · rintro ⟨prompt, code, hask, hcode, rfl⟩
    have hnext := (FirewallClient.nextParams_inr (fun _ => reply.code) f.params).2 ⟨prompt, code, hask, hcode, rfl⟩
    unfold step
    rw [hnext, hcode]
    rfl

theorem inv_step {f f' : Form} {reply : Reply} (hinv : Inv f) (h : step f reply = some f') : Inv f' := by
  obtain ⟨-, code, -, -, rfl⟩ := step_iff.1 h
  have hparams := inv_codeParams hinv reply.retcode code reply.result
  split
  · exact hparams
  · exact inv_copy hparams (by decide) _

/-! ### What has been typed -/

/-- The name of the code that a return code asks for. -/
def codeName (retcode : Int) : Bytes :=
  if retcode = 2 ∨ retcode = 3 ∨ retcode = 4 then ascii "code" else if retcode = 5 then ascii "code2" else ascii "credential2"

theorem typedAfter_code (retcode : Int) (code : Bytes) (typed : StringMap) :
    (typedAfter retcode code typed).get (codeName retcode) = some code := by
  have hne : foldName (ascii "code") ≠ foldName (ascii "code2") := by decide
  unfold typedAfter codeName
  split
  · rw [Run.SortedMap.get_set, if_neg hne, Run.SortedMap.get_set, if_pos rfl]
  · split
    · rw [Run.SortedMap.get_set, if_pos rfl]
    · rw [Run.SortedMap.get_set, if_pos rfl]

/-- A name that is not one of a code is not typed again. -/
theorem typedAfter_other {name : Bytes} (h : ∀ other ∈ codeNames, foldName name ≠ foldName other) (retcode : Int) (code : Bytes)
    (typed : StringMap) : (typedAfter retcode code typed).get name = typed.get name := by
  have hcode := h (ascii "code") (by decide)
  have hcode2 := h (ascii "code2") (by decide)
  have hcredential2 := h (ascii "credential2") (by decide)
  unfold typedAfter
  split
  · rw [Run.SortedMap.get_set, if_neg hcode2, Run.SortedMap.get_set, if_neg hcode]
  · split
    · rw [Run.SortedMap.get_set, if_neg hcode2, Run.SortedMap.get_set, if_neg hcode]
    · rw [Run.SortedMap.get_set, if_neg hcredential2]

theorem start_typed (realm username password : Bytes) :
    (start realm username password).typed.get (ascii "username") = some username ∧
      (start realm username password).typed.get (ascii "credential") = some password ∧
      (start realm username password).typed.get (ascii "realm") = (if realm = [] then none else some realm) := by
  have huser : foldName (ascii "username") ≠ foldName (ascii "credential") := by decide
  have hrealm : foldName (ascii "realm") ≠ foldName (ascii "credential") := by decide
  have hother : foldName (ascii "username") ≠ foldName (ascii "realm") := by decide
  unfold start
  split
  · simp [Run.SortedMap.get_set, huser, hrealm, Ne.symm hother]
  · simp [Run.SortedMap.get_set, huser, hrealm, hother]

theorem exec_inv {realm username password : Bytes} {replies : List Reply} {f : Form}
    (h : Run.exec step (start realm username password) replies = some f) : Inv f :=
  Run.exec_inv (fun _ _ _ hinv hstep => inv_step hinv hstep) (inv_start realm username password) h

theorem exec_typed {name : Bytes} (hname : ∀ other ∈ codeNames, foldName name ≠ foldName other) {replies : List Reply}
    {f f' : Form} (h : Run.exec step f replies = some f') : f'.typed.get name = f.typed.get name := by
  refine Run.exec_inv (I := fun g => g.typed.get name = f.typed.get name) ?_ rfl h
  intro g reply g' hg hstep
  obtain ⟨-, code, -, -, rfl⟩ := step_iff.1 hstep
  rw [typedAfter_other hname, hg]

theorem exec_code {replies : List Reply} {reply : Reply} {f f' : Form} (h : Run.exec step f replies = some f')
    (hlast : replies.getLast? = some reply) : f'.typed.get (codeName reply.retcode) = reply.code := by
  obtain ⟨replies, rfl⟩ := List.getLast?_eq_some_iff.1 hlast
  rw [Run.exec_append] at h
  obtain ⟨g, -, h⟩ := Option.bind_eq_some_iff.1 h
  obtain ⟨g', hstep, h⟩ := Run.exec_cons h
  cases h
  obtain ⟨-, code, -, hcode, rfl⟩ := step_iff.1 hstep
  rw [typedAfter_code, hcode]

/-! ### When the form is intact -/

theorem entry_of_typed {f : Form} (hinv : Inv f) {name text : Bytes} (hname : name ∈ userNames)
    (htyped : f.typed.get name = some text) : (name, Fw.posted name text) ∈ f.params.entries := by
  have hget := hinv.posted name hname
  rw [htyped] at hget
  obtain ⟨⟨name', value⟩, he, hkey, hvalue⟩ := Run.SortedMap.mem_of_get hget
  obtain rfl := foldName_inj name' (hinv.names _ he) name (mem_left hname) hkey
  obtain rfl : value = Fw.posted name' text := hvalue
  exact he

theorem typed_of_entry {f : Form} (hinv : Inv f) {e : Bytes × Bytes} (he : e ∈ f.params.entries) (hname : e.1 ∈ userNames) :
    ∃ text, f.typed.get e.1 = some text ∧ e.2 = Fw.posted e.1 text := by
  have hget := hinv.posted e.1 hname
  rw [Run.SortedMap.get_of_mem he] at hget
  obtain ⟨text, htyped, heq⟩ := Option.map_eq_some_iff.1 hget.symm
  exact ⟨text, htyped, heq.symm⟩

/-- An entry comes to what it should unless it is a code that is not plain. -/
theorem entryFields_intended {f : Form} (hinv : Inv f) (plus : Bool) {e : Bytes × Bytes} (he : e ∈ f.params.entries) :
    entryFields plus e = f.intended plus e ↔ (e.1 ∈ codeNames → ∀ code, f.typed.get e.1 = some code → Plain plus code) := by
  obtain ⟨name, value⟩ := e
  obtain ⟨hplain, hequal⟩ := names_plain plus name (hinv.names _ he)
  unfold intended
  rcases List.mem_append.1 (hinv.names _ he) with huser | hserver
  · obtain ⟨text, htyped, hvalue⟩ := typed_of_entry hinv he huser
    obtain rfl : value = Fw.posted name text := hvalue
    simp only [htyped, Option.some.injEq, forall_eq']
    rw [entryFields_eq_iff hplain hequal]
    unfold Fw.posted
    split
    · rename_i hcode
      rw [decodeText_eq_iff]
      exact ⟨fun h _ => h, fun h => h hcode⟩
    · rename_i hcode
      have hamp : 38 ∉ HttpsClient.encodeUrl text := not_mem_encodeUrl (by decide) (by decide) (by decide) text
      exact ⟨fun _ h => absurd h hcode, fun _ => ⟨hamp, decodeText_encodeUrl plus text⟩⟩
  · have hnone := hinv.server name hserver
    simp only [hnone]
    exact ⟨nofun, fun _ => trivial⟩

theorem length_intended {f : Form} (hinv : Inv f) (plus : Bool) {e : Bytes × Bytes} (he : e ∈ f.params.entries) :
    (f.intended plus e).length ≤ (entryFields plus e).length := by
  obtain ⟨hplain, hequal⟩ := names_plain plus e.1 (hinv.names _ he)
  unfold intended
  split
  · obtain ⟨first, rest, -, heq⟩ := entryFields_eq hplain hequal e.2
    rw [heq, List.length_singleton, List.length_cons]
    omega
  · exact Nat.le_refl _

theorem fields_eq {f : Form} (hinv : Inv f) {username : Bytes} (huser : f.typed.get (ascii "username") = some username)
    (plus : Bool) : f.fields plus = f.params.entries.flatMap (entryFields plus) :=
  formFields_join plus (List.ne_nil_of_mem (entry_of_typed hinv (by decide) huser))

/-- Each entry comes to what it should only when the codes are plain. -/
theorem entries_intended {f : Form} (hinv : Inv f) (plus : Bool) :
    (∀ e ∈ f.params.entries, entryFields plus e = f.intended plus e) ↔
      ∀ name ∈ codeNames, ∀ code, f.typed.get name = some code → Plain plus code := by
  constructor
  · intro h name hname code htyped
    have hentry := entry_of_typed hinv (codeNames_user name hname) htyped
    exact (entryFields_intended hinv plus hentry).1 (h _ hentry) hname code htyped
  · intro h e he
    exact (entryFields_intended hinv plus he).2 fun hname code htyped => h e.1 hname code htyped

/-- The fields under the names of the user are what was typed, unless a value of the server brings others. -/
theorem mem_intended_iff {f : Form} (hinv : Inv f) (plus : Bool) :
    (∀ field : Bytes × Bytes, field.1 ∈ userNames →
      (field ∈ f.params.entries.flatMap (f.intended plus) ↔ f.typed.get field.1 = some field.2)) ↔
    ∀ e ∈ f.params.entries, e.1 ∈ serverNames → ∀ part ∈ (e.2.splitOn 38).tail,
      (formField plus part).1 ∈ userNames → f.typed.get (formField plus part).1 = some (formField plus part).2 := by
  have hserver {e : Bytes × Bytes} (he : e ∈ f.params.entries) (hname : e.1 ∈ serverNames) :
      ∃ value, f.intended plus e = (e.1, value) :: (e.2.splitOn 38).tail.map (formField plus) := by
    obtain ⟨hplain, hequal⟩ := names_plain plus e.1 (mem_right hname)
    obtain ⟨first, rest, hsplit, heq⟩ := entryFields_eq hplain hequal e.2
    refine ⟨decodeText plus first, ?_⟩
    unfold intended
    rw [hinv.server e.1 hname, hsplit]
    exact heq
  constructor
  · intro h e he hname part hpart huser
    obtain ⟨value, heq⟩ := hserver he hname
    refine (h _ huser).1 (List.mem_flatMap.2 ⟨e, he, ?_⟩)
    rw [heq]
    exact List.mem_cons_of_mem _ (List.mem_map_of_mem hpart)
  · intro h field huser
    constructor
    · intro hmem
      obtain ⟨e, he, hfield⟩ := List.mem_flatMap.1 hmem
      rcases List.mem_append.1 (hinv.names e he) with hname | hname
      · obtain ⟨text, htyped, -⟩ := typed_of_entry hinv he hname
        unfold intended at hfield
        rw [htyped] at hfield
        obtain rfl := List.mem_singleton.1 hfield
        exact htyped
      · obtain ⟨value, heq⟩ := hserver he hname
        rw [heq] at hfield
        rcases List.mem_cons.1 hfield with rfl | hfield
        · exact absurd hname (userNames_server _ huser)
        · obtain ⟨part, hpart, rfl⟩ := List.mem_map.1 hfield
          exact h e he hname part hpart huser
    · intro htyped
      refine List.mem_flatMap.2 ⟨_, entry_of_typed hinv huser htyped, ?_⟩
      unfold intended
      rw [htyped]
      exact List.mem_singleton_self _

theorem intact_iff {f : Form} (hinv : Inv f) {username : Bytes} (huser : f.typed.get (ascii "username") = some username)
    (plus : Bool) : f.Intact plus ↔ f.Clean plus := by
  unfold Intact Clean
  rw [← entries_intended hinv plus, ← mem_intended_iff hinv plus, fields_eq hinv huser,
    flatMap_eq_iff fun e he => length_intended hinv plus he]
  refine and_congr_right fun h => ?_
  rw [(flatMap_eq_iff fun e he => length_intended hinv plus he).2 h]

end Form

/-- In every round of a login, what was typed is posted under the names of the form, with the code that was
given last, and the body is intact exactly when the form is clean. -/
theorem loginForm_intact {realm username password : Bytes} {replies : List Reply} {f : Form}
    (h : Run.exec Form.step (.start realm username password) replies = some f) (plus : Bool) :
    (f.typed.get (ascii "username") = some username ∧ f.typed.get (ascii "credential") = some password ∧
      f.typed.get (ascii "realm") = (if realm = [] then none else some realm) ∧
      ∀ reply, replies.getLast? = some reply → f.typed.get (Form.codeName reply.retcode) = reply.code) ∧
    (f.Intact plus ↔ f.Clean plus) := by
  obtain ⟨huser, hcredential, hrealm⟩ := Form.start_typed realm username password
  have huser' := (Form.exec_typed (by decide) h).trans huser
  exact ⟨⟨huser', (Form.exec_typed (by decide) h).trans hcredential, (Form.exec_typed (by decide) h).trans hrealm,
    fun reply hlast => Form.exec_code h hlast⟩, Form.intact_iff (Form.exec_inv h) huser' plus⟩

/-- An encoded password and a plain code are posted as they were typed. -/
theorem loginForm_intact_plain : ∃ f, Run.exec Form.step (.start [] (ascii "u") (ascii "a&b=%41+"))
    [{ retcode := 3, result := .empty, code := some (ascii "1=2") }] = some f ∧ f.Intact true := by
  have hrun : Run.exec Form.step (.start [] (ascii "u") (ascii "a&b=%41+"))
    [{ retcode := 3, result := .empty, code := some (ascii "1=2") }] = some _ := rfl
  refine ⟨_, hrun, (loginForm_intact hrun true).2.2 ⟨?_, by decide⟩⟩
  intro name hname code htyped
  have htyped : Run.SortedMap.get (typedAfter 3 (ascii "1=2") (Form.start [] (ascii "u") (ascii "a&b=%41+")).typed) name =
    some code := htyped
  have hplain : ∀ name ∈ codeNames, (Run.SortedMap.get (typedAfter 3 (ascii "1=2")
      (Form.start [] (ascii "u") (ascii "a&b=%41+")).typed) name).all (fun code => decide (Plain true code)) = true := by
    decide
  have hcode := hplain name hname
  rw [htyped] at hcode
  exact of_decide_eq_true hcode

/-- A code with an ampersand posts a parameter of its own, and is cut there. -/
theorem loginForm_injected : ∃ f, Run.exec Form.step (.start [] (ascii "u") (ascii "p"))
    [{ retcode := 3, result := .empty, code := some (ascii "1&magic=9") }] = some f ∧
      f.typed.get (ascii "code") = some (ascii "1&magic=9") ∧ (ascii "code", ascii "1") ∈ f.fields false ∧
      (ascii "magic", ascii "9") ∈ f.fields false ∧ ¬ f.Intact false := by
  refine ⟨_, rfl, by decide, by decide, by decide, ?_⟩
  rintro ⟨-, h⟩
  exact absurd ((h (ascii "code", ascii "1") (by decide)).1 (by decide)) (by decide)

/-! ## The rounds of the login loop -/

/-- A round that goes on is a step of the form, with the code that the user gave in this round. -/
theorem loginStep_form {p : Portal} {askCode : Nat → Bytes → Option Bytes} {n : Nat} {f : Form} {s s' : FirewallClient}
    {b : Nat × StringMap} (h : FirewallClient.loginStep p askCode (n, f.params) s = .ok (.inl b) s') : ∃ reply f',
      Form.step f reply = some f' ∧ b = (n + 1, f'.params) ∧ ∃ prompt, reply.code = askCode n prompt := by
  unfold FirewallClient.loginStep at h
  obtain ⟨⟨err, result⟩, t, -, h⟩ := Run.bind_eq_ok h
  simp only at h
  split at h
  · cases h
  split at h
  · obtain ⟨_, _, -, h⟩ := Run.bind_eq_ok h
    obtain ⟨_, _, -, h⟩ := Run.bind_eq_ok h
    cases h
  split at h
  · obtain ⟨_, _, -, h⟩ := Run.bind_eq_ok h
    obtain ⟨_, _, -, h⟩ := Run.bind_eq_ok h
    obtain ⟨_, _, -, h⟩ := Run.bind_eq_ok h
    obtain ⟨answer, _, -, h⟩ := Run.bind_eq_ok h
    cases answer <;> cases h
  obtain ⟨next, _, hnext, h⟩ := Run.bind_eq_ok h
  cases next with
  | inl err => cases h
  | inr params =>
    cases h
    cases heq : FirewallClient.nextParams (askCode n) (result.getIntValue (ascii "ret") (-1)) f.params result with
    | error e =>
      rw [heq] at hnext
      cases hnext
    | ok next =>
      rw [heq] at hnext
      cases hnext
      obtain ⟨prompt, code, hask, hcode, rfl⟩ := (FirewallClient.nextParams_inr _ _).1 heq
      exact ⟨⟨_, result, some code⟩, _, Form.step_iff.2 ⟨prompt, code, hask, rfl, rfl⟩, rfl, prompt, hcode.symm⟩

theorem loginRounds_form {p : Portal} {askCode : Nat → Bytes → Option Bytes} {b b' : Nat × StringMap} {s s' : FirewallClient}
    (h : Run.Rounds (FirewallClient.loginStep p askCode) b s b' s') : ∀ f : Form, f.params = b.2 → ∃ replies f',
      Run.exec Form.step f replies = some f' ∧ b' = (b.1 + replies.length, f'.params) ∧
        ∀ i reply, replies[i]? = some reply → ∃ prompt, reply.code = askCode (b.1 + i) prompt := by
  induction h with
  | refl b s =>
    intro f hf
    exact ⟨[], f, rfl, by rw [hf]; rfl, fun _ _ h => by cases h⟩
  | @round b b₁ b₂ s s₁ s₂ hround hrest ih =>
    intro f hf
    obtain ⟨n, params⟩ := b
    obtain rfl : f.params = params := hf
    obtain ⟨reply, g, hstep, rfl, hcode⟩ := loginStep_form hround
    obtain ⟨replies, f', hexec, hb, hcodes⟩ := ih g rfl
    refine ⟨reply :: replies, f', by rw [Run.exec, hstep]; exact hexec, ?_, ?_⟩
    · rw [hb, List.length_cons]
      simp only [Nat.add_assoc, Nat.add_comm 1]
    · intro i reply' hi
      cases i with
      | zero =>
        cases hi
        exact hcode
      | succ i =>
        obtain ⟨prompt, hprompt⟩ := hcodes i reply' hi
        exact ⟨prompt, by rw [hprompt]; simp only [Nat.add_assoc, Nat.add_comm 1]⟩

end FortiRdp.Fw
