/-
The grammar of JSON texts, with the values that they stand for. The parser accepts exactly these texts and gives these
values.
-/
import FortiRdp.Util.JsonTokens
import FortiRdp.Net.EndpointText

namespace FortiRdp.Util

open Run

namespace JsonGrammar

variable {F : Type}

/-! ## The grammar -/

section Grammar

variable (lib : DoubleLib F) (strategy : JsonParse) (V : Bytes → Json F → Prop)

/-- Values, with commas between them. -/
inductive Items : Bytes → List (Json F) → Prop
  | last {g t g' : Bytes} {v : Json F} (hg : Garbage strategy g) (ht : V t v) (hg' : Garbage strategy g') :
    Items (g ++ (t ++ g')) [v]
  | cons {g t g' r : Bytes} {v : Json F} {vs : List (Json F)} (hg : Garbage strategy g) (ht : V t v)
    (hg' : Garbage strategy g') (hr : Items r vs) : Items (g ++ (t ++ (g' ++ 44 :: r))) (v :: vs)

/-- A key and a value, from behind the first quote on. -/
inductive Member : Bytes → Bytes × Json F → Prop
  | mk {body g g' t : Bytes} {ps : List Piece} {v : Json F} (hbody : StringText body ps) (hg : Garbage strategy g)
    (hg' : Garbage strategy g') (ht : V t v) : Member (body ++ 34 :: (g ++ 58 :: (g' ++ t))) (decode ps, v)

/-- Members, with commas between them. -/
inductive Members : Bytes → List (Bytes × Json F) → Prop
  | last {g m g' : Bytes} {e : Bytes × Json F} (hg : Garbage strategy g) (hm : Member strategy V m e) (hg' : Garbage strategy g') :
    Members (g ++ 34 :: (m ++ g')) [e]
  | cons {g m g' r : Bytes} {e : Bytes × Json F} {es : List (Bytes × Json F)} (hg : Garbage strategy g) (hm : Member strategy V m e)
    (hg' : Garbage strategy g') (hr : Members r es) : Members (g ++ 34 :: (m ++ (g' ++ 44 :: r))) (e :: es)

/-- The text of a value, when `V` has the texts of the values inside. Of two members with one key, the last one counts. -/
inductive ValueOf : Bytes → Json F → Prop
  | null : ValueOf (ascii "null") .null
  | true : ValueOf (ascii "true") (.bool true)
  | false : ValueOf (ascii "false") (.bool false)
  | number {sign int frac exp : Bytes} (h : NumberText sign int frac exp) :
    ValueOf (sign ++ (int ++ (frac ++ exp))) (numberIn lib sign int frac exp (sign ++ (int ++ (frac ++ exp))))
  | string {body : Bytes} {ps : List Piece} (h : StringText body ps) : ValueOf (34 :: (body ++ [34])) (.string (decode ps))
  | emptyArray {g : Bytes} (hg : Garbage strategy g) : ValueOf (91 :: (g ++ [93])) (.array [])
  | array {t : Bytes} {vs : List (Json F)} (h : Items strategy V t vs) : ValueOf (91 :: (t ++ [93])) (.array vs)
  | emptyObject {g : Bytes} (hg : Garbage strategy g) : ValueOf (123 :: (g ++ [125])) (.object [])
  | object {t : Bytes} {es : List (Bytes × Json F)} (h : Members strategy V t es) :
    ValueOf (123 :: (t ++ [125])) (.object ((SortedMap.empty : SortedMap (Json F) strKey).setAll es).entries)

/-- The text of a value with at most so many levels. -/
def Value : Nat → Bytes → Json F → Prop
  | 0 => fun _ _ => False
  | room + 1 => ValueOf lib strategy (Value room)

/-- A whole text: a value, with a nesting of `max_depth` below it, and what is passed over around it. -/
inductive Document : Bytes → Json F → Prop
  | mk {g t g' : Bytes} {v : Json F} (hg : Garbage strategy g) (ht : Value lib strategy (JsonParser.maxDepth + 1) t v)
    (hg' : Trailer strategy g') : Document (g ++ (t ++ g')) v

end Grammar

/-- `strtod` reads a number, and nothing behind it that does not go on with it. -/
def ReadsNumbers (lib : DoubleLib F) : Prop :=
  ∀ sign int frac exp k, NumberText sign int frac exp → Ends frac exp k → ¬ Short sign int frac exp →
    lib.strtod (sign ++ (int ++ (frac ++ (exp ++ k)))) = lib.strtod (sign ++ (int ++ (frac ++ exp)))

variable {lib : DoubleLib F} {strategy : JsonParse}

/-! ## Numbers in their texts -/

theorem readDigits_stop {ds k : Bytes} (h : Digits ds) (hk : isdigit (k.headD 0) = false) :
    readDigits 10 0 (ds ++ k) = digitsValue 10 ds := by
  have hradix : isRadixDigit 10 = isdigit := funext fun c => Net.Endpoint.isRadixDigit_ten c
  have htake : (ds ++ k).takeWhile isdigit = ds := by
    rw [List.takeWhile_append_of_pos h]
    cases k with
    | nil => exact List.append_nil _
    | cons c k => rw [List.takeWhile_cons_of_neg (by rw [show isdigit c = false from hk]; decide), List.append_nil]
  rw [readDigits_takeWhile, hradix, htake]
  rfl

/-- The integer part has digits only. -/
theorem NumberText.digits {sign int frac exp : Bytes} (h : NumberText sign int frac exp) : int ≠ [] ∧ Digits int := by
  rcases h.int with rfl | ⟨d, ds, rfl, hd, hds⟩
  · exact ⟨List.cons_ne_nil _ _, fun c hc => by rw [List.mem_singleton.1 hc]; rfl⟩
  · refine ⟨List.cons_ne_nil _ _, fun c hc => ?_⟩
    rcases List.mem_cons.1 hc with rfl | hc
    · unfold isdigit
      simp only [Bool.and_eq_true, decide_eq_true_eq, UInt8.le_iff_toNat_le, UInt8.reduceToNat] at hd ⊢
      omega
    · exact hds c hc

/-- The value of a sign and digits. -/
theorem atoi_digits {sign int k : Bytes} (hsign : sign = [] ∨ sign = [45]) (hne : int ≠ []) (hint : Digits int)
    (hk : isdigit (k.headD 0) = false) :
    JsonParser.atoi (sign ++ (int ++ k)) = if sign = [] then (digitsValue 10 int : Int) else -digitsValue 10 int := by
  have hread := readDigits_stop hint hk
  rcases hsign with rfl | rfl
  · cases int with
    | nil => exact absurd rfl hne
    | cons c int =>
      have hdigit : isalnum c = true := by
        unfold isalnum
        rw [hint c (List.mem_cons_self ..), Bool.true_or]
      unfold JsonParser.atoi
      rw [List.nil_append, List.cons_append, List.dropWhile_cons_of_neg (by rw [isspace_of_alnum hdigit]; decide),
        readSign_alnum hdigit]
      rw [List.cons_append] at hread
      simp only [hread]
      rfl
  · show (-(readDigits 10 0 (int ++ k) : Int)) = _
    rw [hread]
    rfl

/-- A number is the same, whatever follows it. -/
theorem numberIn_eq (hlib : ReadsNumbers lib) {sign int frac exp k : Bytes} (h : NumberText sign int frac exp)
    (hk : Ends frac exp k) :
    numberIn lib sign int frac exp (sign ++ (int ++ (frac ++ (exp ++ k)))) =
      numberIn lib sign int frac exp (sign ++ (int ++ (frac ++ exp))) := by
  unfold numberIn
  by_cases hs : Short sign int frac exp
  · obtain ⟨hfrac, hexp, -⟩ := id hs
    rw [if_pos hs, if_pos hs]
    subst hfrac hexp
    simp only [List.nil_append]
    rw [atoi_digits h.sign h.digits.1 h.digits.2 hk.digit, atoi_digits h.sign h.digits.1 h.digits.2 rfl]
  · rw [if_neg hs, if_neg hs, hlib _ _ _ _ _ h hk hs]

/-! ## The grammar is accepted -/

/-- The text behind a value does not go on with a number. -/
def Stops (k : Bytes) : Prop := isdigit (k.headD 0) = false ∧ k.headD 0 ≠ 46 ∧ k.headD 0 ≠ 101 ∧ k.headD 0 ≠ 69

theorem Stops.ends {k : Bytes} (h : Stops k) (frac exp : Bytes) : Ends frac exp k := ⟨h.1, fun _ _ => h.2.1, fun _ => h.2.2⟩

theorem isWhite_cases {c : UInt8} (h : JsonParser.isWhite c = true) : c = 32 ∨ c = 13 ∨ c = 10 ∨ c = 9 := by
  unfold JsonParser.isWhite at h
  simp only [Bool.or_eq_true, beq_iff_eq] at h
  rcases h with ((h | h) | h) | h
  · exact .inl h
  · exact .inr (.inl h)
  · exact .inr (.inr (.inl h))
  · exact .inr (.inr (.inr h))

theorem stops_cons {c : UInt8} (h : c = 32 ∨ c = 13 ∨ c = 10 ∨ c = 9 ∨ c = 47 ∨ c = 44 ∨ c = 93 ∨ c = 125) (k : Bytes) :
    Stops (c :: k) := by
  unfold Stops
  rw [List.headD_cons]
  rcases h with rfl | rfl | rfl | rfl | rfl | rfl | rfl | rfl
  all_goals exact ⟨rfl, by decide, by decide, by decide⟩

theorem Garbage.stops {g k : Bytes} (hg : Garbage strategy g) (hk : Stops k) : Stops (g ++ k) := by
  cases hg with
  | nil => exact hk
  | white hc _ =>
    refine stops_cons ?_ _
    rcases isWhite_cases hc with h | h | h | h
    · exact .inl h
    · exact .inr (.inl h)
    · exact .inr (.inr (.inl h))
    · exact .inr (.inr (.inr (.inl h)))
  | line => exact stops_cons (.inr (.inr (.inr (.inr (.inl rfl))))) _
  | block => exact stops_cons (.inr (.inr (.inr (.inr (.inl rfl))))) _

/-- The character that a value begins with. -/
def Starts (c : UInt8) : Prop := JsonParser.isWhite c = false ∧ c ≠ 47 ∧ c ≠ 93

theorem NumberText.starts {sign int frac exp : Bytes} (h : NumberText sign int frac exp) :
    ∃ c t, sign ++ (int ++ (frac ++ exp)) = c :: t ∧ (c = 45 ∨ isdigit c = true) := by
  rcases h.sign with rfl | rfl
  · obtain ⟨hne, hint⟩ := h.digits
    cases int with
    | nil => exact absurd rfl hne
    | cons c int => exact ⟨c, int ++ (frac ++ exp), rfl, .inr (hint c (List.mem_cons_self ..))⟩
  · exact ⟨45, int ++ (frac ++ exp), rfl, .inl rfl⟩

theorem starts_number {c : UInt8} (h : c = 45 ∨ isdigit c = true) : Starts c := by
  rcases h with rfl | h
  · exact ⟨rfl, by decide, by decide⟩
  · refine ⟨Bool.eq_false_iff.2 fun hc => ?_, ?_, ?_⟩
    · rcases isWhite_cases hc with rfl | rfl | rfl | rfl
      all_goals cases h
    · rintro rfl
      cases h
    · rintro rfl
      cases h

theorem ValueOf.starts {V : Bytes → Json F → Prop} {t : Bytes} {v : Json F} (h : ValueOf lib strategy V t v) :
    ∃ c t', t = c :: t' ∧ Starts c := by
  cases h with
  | null => exact ⟨_, _, rfl, by decide, by decide, by decide⟩
  | true => exact ⟨_, _, rfl, by decide, by decide, by decide⟩
  | false => exact ⟨_, _, rfl, by decide, by decide, by decide⟩
  | number h =>
    obtain ⟨c, t, ht, hc⟩ := h.starts
    exact ⟨c, t, ht, starts_number hc⟩
  | string => exact ⟨_, _, rfl, by decide, by decide, by decide⟩
  | emptyArray => exact ⟨_, _, rfl, by decide, by decide, by decide⟩
  | array => exact ⟨_, _, rfl, by decide, by decide, by decide⟩
  | emptyObject => exact ⟨_, _, rfl, by decide, by decide, by decide⟩
  | object => exact ⟨_, _, rfl, by decide, by decide, by decide⟩

theorem token_cons {c : UInt8} (hc : JsonParser.isWhite c = false) (hne : c ≠ 47) (k : Bytes) :
    Token strategy (c :: k) := ⟨hc, fun _ => hne⟩

section Run

variable {V : Bytes → Json F → Prop} {read : JsonReader.ReadM (Json F)} {fuel : Nat}

/-- The texts of values, which begin as values do, are read. -/
structure Runs (lib : DoubleLib F) (strategy : JsonParse) (fuel : Nat) (V : Bytes → Json F → Prop)
    (read : JsonReader.ReadM (Json F)) :
    Prop where
  starts : ∀ {t v}, V t v → ∃ c t', t = c :: t' ∧ Starts c
  run : ∀ {g t v k}, Garbage strategy g → V t v → Stops k → (g ++ (t ++ k)).length < fuel → read (g ++ (t ++ k)) = .ok (v, k)

/-- A value and the token behind it are read. -/
theorem Runs.step (hV : Runs lib strategy fuel V read) {g t g' k : Bytes} {v : Json F} {e : UInt8}
    (hg : Garbage strategy g) (ht : V t v)
    (hg' : Garbage strategy g') (he : e = 44 ∨ e = 93 ∨ e = 125) (hfuel : (g ++ (t ++ (g' ++ e :: k))).length < fuel)
    (f : Json F → UInt8 → JsonReader.ReadM (Json F)) :
    (read >>= fun v => JsonReader.token strategy fuel >>= f v) (g ++ (t ++ (g' ++ e :: k))) = f v e (e :: k) := by
  have hstops : Stops (e :: k) := stops_cons (by rcases he with rfl | rfl | rfl <;> decide) k
  have htoken : Token strategy (e :: k) := by
    rcases he with rfl | rfl | rfl
    all_goals exact token_cons rfl (by decide) k
  have hread : read (g ++ (t ++ (g' ++ e :: k))) = .ok (v, g' ++ e :: k) := hV.run hg ht (hg'.stops hstops) hfuel
  show (read (g ++ (t ++ (g' ++ e :: k))) >>= fun p => (JsonReader.token strategy fuel >>= f p.1) p.2) = _
  rw [hread]
  show (JsonReader.token strategy fuel (g' ++ e :: k) >>= fun p => f v p.1 p.2) = _
  rw [token_run hg' htoken (Nat.lt_of_le_of_lt (by simp; omega) hfuel)]
  rfl

/-- The items are read, from the first character of the first one on. -/
theorem Items.run (hV : Runs lib strategy fuel V read) {t : Bytes} {vs : List (Json F)} (h : Items strategy V t vs) :
    ∃ g c m, t = g ++ c :: m ∧ Garbage strategy g ∧ Starts c ∧ ∀ n data k, (c :: m ++ 93 :: k).length < n →
      (c :: m ++ 93 :: k).length < fuel →
      JsonReader.items strategy fuel read n data (c :: m ++ 93 :: k) = .ok (.array (data ++ vs), k) := by
  induction h with
  | @last g t g' v hg ht hg' =>
    obtain ⟨c, m, rfl, hc⟩ := hV.starts ht
    refine ⟨g, c, m ++ g', rfl, hg, hc, fun n data k hn hfuel => ?_⟩
    obtain ⟨n, rfl⟩ := Nat.exists_eq_succ_of_ne_zero (Nat.ne_zero_of_lt hn)
    have htext : c :: (m ++ g') ++ 93 :: k = c :: m ++ (g' ++ 93 :: k) := by simp
    rw [htext] at hfuel ⊢
    exact hV.step .nil ht hg' (.inr (.inl rfl)) hfuel _
  | @cons g t g' r v vs hg ht hg' hr ih =>
    obtain ⟨c, m, rfl, hc⟩ := hV.starts ht
    obtain ⟨g'', d, m', rfl, hg'', hd, hrun⟩ := ih
    refine ⟨g, c, m ++ (g' ++ 44 :: (g'' ++ d :: m')), rfl, hg, hc, fun n data k hn hfuel => ?_⟩
    obtain ⟨n, rfl⟩ := Nat.exists_eq_succ_of_ne_zero (Nat.ne_zero_of_lt hn)
    have htext : c :: (m ++ (g' ++ 44 :: (g'' ++ d :: m'))) ++ 93 :: k =
      c :: m ++ (g' ++ 44 :: (g'' ++ (d :: m' ++ 93 :: k))) := by simp
    rw [htext] at hn hfuel ⊢
    refine (hV.step .nil ht hg' (.inl rfl) hfuel _).trans ?_
    simp only [List.length_append, List.length_cons] at hn hfuel
    show (JsonReader.token strategy fuel (g'' ++ d :: (m' ++ 93 :: k)) >>= fun p =>
      JsonReader.items strategy fuel read n (data ++ [v]) p.2) = _
    rw [token_run hg'' (token_cons hd.1 hd.2.1 _) (by simp only [List.length_append, List.length_cons]; omega)]
    show JsonReader.items strategy fuel read n (data ++ [v]) (d :: m' ++ 93 :: k) = _
    rw [hrun n _ k (by simp only [List.length_append, List.length_cons]; omega) (by simp only [List.length_append, List.length_cons]; omega),
      List.append_assoc]
    rfl

/-- A member is read, from behind its first quote on, and the token behind it. -/
theorem Member.step (hV : Runs lib strategy fuel V read) {m g k : Bytes} {key : Bytes} {v : Json F} {e : UInt8}
    (hm : Member strategy V m (key, v)) (hg : Garbage strategy g) (he : e = 44 ∨ e = 93 ∨ e = 125)
    (hfuel : (m ++ (g ++ e :: k)).length < fuel)
    (n : Nat) (data : SortedMap (Json F) strKey) :
    JsonReader.members strategy fuel read (n + 1) data 34 (m ++ (g ++ e :: k)) =
      (if e = 125 then pure (.object (data.set key v).entries)
        else if e ≠ 44 then fun _ => .error (ascii "expected ',' in object, got " ++ JsonParser.esc e)
        else JsonReader.token strategy fuel >>= JsonReader.behind (JsonReader.members strategy fuel read n (data.set key v)) :
          JsonReader.ReadM (Json F)) k := by
  cases hm with
  | @mk body g₁ g₂ t ps _ hbody hg₁ hg₂ ht =>
    rw [List.append_assoc, List.cons_append, List.append_assoc, List.cons_append, List.append_assoc] at hfuel ⊢
    simp only [List.length_append, List.length_cons] at hfuel
    show (JsonReader.string fuel [] none (body ++ 34 :: _) >>= _) = _
    rw [string_run hbody fuel [] none _ (by omega)]
    show (JsonReader.token strategy fuel (g₁ ++ 58 :: _) >>= _) = _
    rw [token_run hg₁ (token_cons rfl (by decide) _) (by simp only [List.length_append, List.length_cons]; omega)]
    exact hV.step hg₂ ht hg he (by simp only [List.length_append, List.length_cons]; omega) fun v =>
        JsonReader.behind fun ch =>
      if ch = 125 then pure (.object (data.set (decode ps) v).entries)
      else if ch ≠ 44 then fun _ => .error (ascii "expected ',' in object, got " ++ JsonParser.esc ch)
      else JsonReader.token strategy fuel >>= JsonReader.behind (JsonReader.members strategy fuel read n (data.set (decode ps) v))

/-- The members are read, from behind the first quote on. -/
theorem Members.run (hV : Runs lib strategy fuel V read) {t : Bytes} {es : List (Bytes × Json F)}
    (h : Members strategy V t es) :
    ∃ g m, t = g ++ 34 :: m ∧ Garbage strategy g ∧ ∀ n data k, (m ++ 125 :: k).length < n → (m ++ 125 :: k).length < fuel →
      JsonReader.members strategy fuel read n data 34 (m ++ 125 :: k) = .ok (.object (data.setAll es).entries, k) := by
  induction h with
  | @last g m g' e hg hm hg' =>
    refine ⟨g, m ++ g', rfl, hg, fun n data k hn hfuel => ?_⟩
    obtain ⟨n, rfl⟩ := Nat.exists_eq_succ_of_ne_zero (Nat.ne_zero_of_lt hn)
    rw [List.append_assoc] at hfuel ⊢
    exact hm.step hV hg' (.inr (.inr rfl)) hfuel n data
  | @cons g m g' r e es hg hm hg' hr ih =>
    obtain ⟨g'', m', rfl, hg'', hrun⟩ := ih
    refine ⟨g, m ++ (g' ++ 44 :: (g'' ++ 34 :: m')), rfl, hg, fun n data k hn hfuel => ?_⟩
    obtain ⟨n, rfl⟩ := Nat.exists_eq_succ_of_ne_zero (Nat.ne_zero_of_lt hn)
    have htext : m ++ (g' ++ 44 :: (g'' ++ 34 :: m')) ++ 125 :: k =
      m ++ (g' ++ 44 :: (g'' ++ 34 :: (m' ++ 125 :: k))) := by simp
    rw [htext] at hn hfuel ⊢
    refine (hm.step hV hg' (.inl rfl) hfuel n data).trans ?_
    simp only [List.length_append, List.length_cons] at hn hfuel
    show (JsonReader.token strategy fuel (g'' ++ 34 :: (m' ++ 125 :: k)) >>= _) = _
    rw [token_run hg'' (token_cons rfl (by decide) _) (by simp only [List.length_append, List.length_cons]; omega)]
    exact hrun n _ k (by simp only [List.length_append, List.length_cons]; omega) (by simp only [List.length_append, List.length_cons]; omega)

end Run

/-- A value is read from its first character on. -/
theorem valueAt_run (hlib : ReadsNumbers lib) {V : Bytes → Json F → Prop} {read : JsonReader.ReadM (Json F)} {fuel : Nat}
    (hV : Runs lib strategy fuel V read) {c : UInt8} {m : Bytes} {v : Json F} (h : ValueOf lib strategy V (c :: m) v)
    {k : Bytes} (hk : Stops k)
    (hfuel : (c :: m ++ k).length < fuel) : JsonReader.valueAt strategy fuel lib read c (c :: m ++ k) = .ok (v, k) := by
  generalize htext : c :: m = text at h hfuel ⊢
  cases h with
  | null =>
    cases htext
    rfl
  | true =>
    cases htext
    rfl
  | false =>
    cases htext
    rfl
  | @number sign int frac exp h =>
    obtain ⟨d, t, ht, hd⟩ := h.starts
    obtain ⟨rfl, -⟩ := List.cons.inj (htext.trans ht)
    unfold JsonReader.valueAt
    rw [if_pos hd]
    have hrun : JsonReader.number lib _ = _ := number_run h (hk.ends frac exp)
    rw [numberIn_eq hlib h (hk.ends frac exp)] at hrun
    simpa only [List.append_assoc] using hrun
  | @string body ps h =>
    cases htext
    rw [List.cons_append, List.append_assoc] at hfuel ⊢
    simp only [List.length_append, List.length_cons] at hfuel
    show (JsonReader.string fuel [] none (body ++ 34 :: k) >>= _) = _
    rw [string_run h fuel [] none k (by omega)]
    rfl
  | @emptyArray g hg =>
    cases htext
    rw [List.cons_append, List.append_assoc] at hfuel ⊢
    show (JsonReader.token strategy fuel (g ++ 93 :: k) >>= _) = _
    rw [token_run hg (token_cons rfl (by decide) k) (Nat.lt_of_succ_lt hfuel)]
    rfl
  | @array t vs h =>
    cases htext
    obtain ⟨g, d, m', rfl, hg, hd, hrun⟩ := h.run hV
    have htail : (91 :: (g ++ d :: m' ++ [93]) ++ k : Bytes) = 91 :: (g ++ d :: (m' ++ 93 :: k)) := by simp
    rw [htail] at hfuel ⊢
    simp only [List.length_append, List.length_cons] at hfuel
    show (JsonReader.token strategy fuel (g ++ d :: (m' ++ 93 :: k)) >>= _) = _
    rw [token_run hg (token_cons hd.1 hd.2.1 _) (by simp only [List.length_append, List.length_cons]; omega)]
    show (if d = 93 then _ else _ : JsonReader.ReadM (Json F)) _ = _
    rw [if_neg hd.2.2]
    exact hrun fuel [] k (by simp only [List.length_append, List.length_cons]; omega) (by simp only [List.length_append, List.length_cons]; omega)
  | @emptyObject g hg =>
    cases htext
    rw [List.cons_append, List.append_assoc] at hfuel ⊢
    show (JsonReader.token strategy fuel (g ++ 125 :: k) >>= _) = _
    rw [token_run hg (token_cons rfl (by decide) k) (Nat.lt_of_succ_lt hfuel)]
    rfl
  | @object t es h =>
    cases htext
    obtain ⟨g, m', rfl, hg, hrun⟩ := h.run hV
    have htail : (123 :: (g ++ 34 :: m' ++ [125]) ++ k : Bytes) = 123 :: (g ++ 34 :: (m' ++ 125 :: k)) := by simp
    rw [htail] at hfuel ⊢
    simp only [List.length_append, List.length_cons] at hfuel
    show (JsonReader.token strategy fuel (g ++ 34 :: (m' ++ 125 :: k)) >>= _) = _
    rw [token_run hg (token_cons rfl (by decide) _) (by simp only [List.length_append, List.length_cons]; omega)]
    exact hrun fuel .empty k (by simp only [List.length_append, List.length_cons]; omega)
      (by simp only [List.length_append, List.length_cons]; omega)

/-- The texts of values are read, to any depth. -/
theorem Value.run (hlib : ReadsNumbers lib) (fuel : Nat) : ∀ room,
    Runs lib strategy fuel (Value lib strategy room) (JsonReader.json strategy fuel lib room)
  | 0 => ⟨fun h => h.elim, fun _ h => h.elim⟩
  | room + 1 => by
    refine ⟨ValueOf.starts, fun {g t v k} hg ht hk hfuel => ?_⟩
    obtain ⟨c, m, rfl, hc⟩ := ValueOf.starts ht
    show (JsonReader.token strategy fuel (g ++ c :: (m ++ k)) >>= _) = _
    rw [token_run (k := m ++ k) hg (token_cons hc.1 hc.2.1 _) hfuel]
    exact valueAt_run hlib (Value.run hlib fuel room) ht hk (Nat.lt_of_le_of_lt (by simp) hfuel)

theorem Trailer.stops {g : Bytes} (h : Trailer strategy g) : Stops g := by
  cases h with
  | garbage hg =>
    have hstops := hg.stops (k := []) ⟨rfl, by decide, by decide, by decide⟩
    rw [List.append_nil] at hstops
    exact hstops
  | line _ hg _ => exact hg.stops (stops_cons (by decide) _)

/-- A text of the grammar is accepted. -/
theorem Document.run (hlib : ReadsNumbers lib) {text : Bytes} {v : Json F} (h : Document lib strategy text v) {fuel : Nat}
    (hfuel : text.length < fuel) : JsonReader.document strategy fuel lib text = .ok (v, []) := by
  obtain @⟨g, t, g', _, hg, ht, hg'⟩ := h
  show (JsonReader.json strategy fuel lib (JsonParser.maxDepth + 1) (g ++ (t ++ g')) >>= _) = _
  rw [(Value.run hlib fuel _).run hg ht hg'.stops hfuel]
  show (JsonReader.garbage strategy fuel g' >>= _) = _
  rw [trailer_run hg' (Nat.lt_of_le_of_lt (by simp; omega) hfuel)]
  rfl

/-! ## What is accepted is in the grammar -/

section Sound

variable {V : Bytes → Json F → Prop} {read : JsonReader.ReadM (Json F)} {fuel : Nat}

/-- What is read is the text of a value, behind what may be passed over. -/
def Sound (strategy : JsonParse) (V : Bytes → Json F → Prop) (read : JsonReader.ReadM (Json F)) : Prop :=
  ∀ ⦃rest k : Bytes⦄ ⦃v : Json F⦄, read rest = .ok (v, k) → ∃ g t, rest = g ++ (t ++ k) ∧ Garbage strategy g ∧ V t v

theorem bind_eq_ok {α β : Type} {x : JsonReader.ReadM α} {f : α → JsonReader.ReadM β} {m : Bytes} {r : β × Bytes}
    (h : (x >>= f) m = .ok r) : ∃ a k, x m = .ok (a, k) ∧ f a k = .ok r := by
  change (x m >>= fun p => f p.1 p.2) = _ at h
  cases hx : x m with
  | error e =>
    rw [hx] at h
    cases h
  | ok p =>
    rw [hx] at h
    exact ⟨p.1, p.2, rfl, h⟩

theorem behind_ok {β : Type} {f : UInt8 → JsonReader.ReadM β} {m : Bytes} {r : β × Bytes}
    (h : (JsonReader.token strategy fuel >>= JsonReader.behind f) m = .ok r) :
    ∃ g c k, m = g ++ c :: k ∧ Garbage strategy g ∧ f c k = .ok r := by
  obtain ⟨c, r, htoken, hrun⟩ := bind_eq_ok h
  obtain ⟨g, k, rfl, hrest, hg, -⟩ := token_ok htoken
  exact ⟨g, c, k, hrest, hg, hrun⟩

theorem Items.prepend {g t : Bytes} {vs : List (Json F)} (hg : Garbage strategy g) (h : Items strategy V t vs) :
    Items strategy V (g ++ t) vs := by
  cases h with
  | last hg' ht hg'' =>
    rw [← List.append_assoc]
    exact .last (hg.append hg') ht hg''
  | cons hg' ht hg'' hr =>
    rw [← List.append_assoc]
    exact .cons (hg.append hg') ht hg'' hr

theorem items_ok (hV : Sound strategy V read) : ∀ {n : Nat} {data : List (Json F)} {rest k : Bytes} {v : Json F},
    JsonReader.items strategy fuel read n data rest = .ok (v, k) →
      ∃ t vs, rest = t ++ 93 :: k ∧ Items strategy V t vs ∧ v = .array (data ++ vs)
  | 0, _, _, _, _, h => by cases h
  | n + 1, data, rest, k, v, h => by
    obtain ⟨w, r, hread, h₁⟩ := bind_eq_ok h
    obtain ⟨g, t, hrest, hg, ht⟩ := hV hread
    obtain ⟨g', c, r', hr, hg', h₂⟩ := behind_ok h₁
    by_cases hclose : c = 93
    · rw [if_pos hclose] at h₂
      cases h₂
      exact ⟨g ++ (t ++ g'), [w], by rw [hrest, hr, hclose]; simp, .last hg ht hg', rfl⟩
    rw [if_neg hclose] at h₂
    by_cases hcomma : c ≠ 44
    · rw [if_pos hcomma] at h₂
      cases h₂
    rw [if_neg hcomma] at h₂
    obtain ⟨d, r'', htoken, h₃⟩ := bind_eq_ok h₂
    obtain ⟨g'', k', hr'', hr', hg'', -⟩ := token_ok htoken
    obtain ⟨t', vs, ht', hitems, hv⟩ := items_ok hV h₃
    refine ⟨g ++ (t ++ (g' ++ 44 :: (g'' ++ t'))), w :: vs, ?_, .cons hg ht hg' (hitems.prepend hg''),
      by rw [hv, List.append_assoc]; rfl⟩
    rw [hrest, hr, hr', ← hr'', ht', not_not.1 hcomma]
    simp

theorem members_ok (hV : Sound strategy V read) :
    ∀ {n : Nat} {data : SortedMap (Json F) strKey} {ch : UInt8} {rest k : Bytes} {v : Json F},
    JsonReader.members strategy fuel read n data ch rest = .ok (v, k) →
      ch = 34 ∧ ∃ m es, rest = m ++ 125 :: k ∧ (∀ g, Garbage strategy g → Members strategy V (g ++ 34 :: m) es) ∧
        v = .object (data.setAll es).entries
  | 0, _, _, _, _, _, h => by cases h
  | n + 1, data, ch, rest, k, v, h => by
    unfold JsonReader.members at h
    by_cases hquote : ch ≠ 34
    · rw [if_pos hquote] at h
      cases h
    rw [if_neg hquote] at h
    refine ⟨not_not.1 hquote, ?_⟩
    obtain ⟨key, r, hstring, h₁⟩ := bind_eq_ok h
    obtain ⟨body, ps, hrest, hbody, hkey⟩ := string_ok hstring
    obtain ⟨g, c, r₁, hr, hg, h₂⟩ := behind_ok h₁
    by_cases hcolon : c ≠ 58
    · rw [if_pos hcolon] at h₂
      cases h₂
    rw [if_neg hcolon] at h₂
    obtain ⟨w, r₂, hread, h₃⟩ := bind_eq_ok h₂
    obtain ⟨g', t, hr₁, hg', ht⟩ := hV hread
    obtain ⟨g'', d, r₃, hr₂, hg'', h₄⟩ := behind_ok h₃
    have hm : Member strategy V (body ++ 34 :: (g ++ 58 :: (g' ++ t))) (key, w) := by
      rw [hkey]
      exact .mk hbody hg hg' ht
    have htext : rest = body ++ 34 :: (g ++ 58 :: (g' ++ t)) ++ (g'' ++ d :: r₃) := by
      rw [hrest, hr, not_not.1 hcolon, hr₁, hr₂]
      simp
    by_cases hclose : d = 125
    · rw [if_pos hclose] at h₄
      cases h₄
      refine ⟨body ++ 34 :: (g ++ 58 :: (g' ++ t)) ++ g'', [(key, w)],
        by rw [htext, hclose]; simp, fun g₀ hg₀ => .last hg₀ hm hg'', rfl⟩
    rw [if_neg hclose] at h₄
    by_cases hcomma : d ≠ 44
    · rw [if_pos hcomma] at h₄
      cases h₄
    rw [if_neg hcomma] at h₄
    obtain ⟨g₃, e, r₄, hr₃, hg₃, h₅⟩ := behind_ok h₄
    obtain ⟨he, m, es, hr₄, hmembers, hv⟩ := members_ok hV h₅
    refine ⟨body ++ 34 :: (g ++ 58 :: (g' ++ t)) ++ (g'' ++ 44 :: (g₃ ++ 34 :: m)), (key, w) :: es, ?_, fun g₀ hg₀ => ?_, hv⟩
    · rw [htext, hr₃, hr₄, not_not.1 hcomma, he]
      simp
    · exact .cons hg₀ hm hg'' (hmembers g₃ hg₃)

theorem expect_ok {expected rest k : Bytes} {res v : Json F} (h : JsonReader.expect expected res rest = .ok (v, k)) :
    rest = expected ++ k ∧ v = res := by
  unfold JsonReader.expect at h
  split at h
  · rename_i htake
    cases h
    have hsplit := List.take_append_drop expected.length rest
    rw [htake] at hsplit
    exact ⟨hsplit.symm, rfl⟩
  · cases h

theorem valueAt_ok (hlib : ReadsNumbers lib) (hV : Sound strategy V read) {c : UInt8} {m k : Bytes} {v : Json F}
    (h : JsonReader.valueAt strategy fuel lib read c (c :: m) = .ok (v, k)) :
    ∃ t, c :: m = t ++ k ∧ ValueOf lib strategy V t v := by
  unfold JsonReader.valueAt at h
  split at h
  · obtain ⟨sign, int, frac, exp, hall, htext, hends, hv⟩ := number_ok h
    refine ⟨sign ++ (int ++ (frac ++ exp)), by rw [hall]; simp, ?_⟩
    rw [hv, hall, numberIn_eq hlib htext hends]
    exact .number htext
  split at h
  · obtain ⟨hrest, rfl⟩ := expect_ok h
    exact ⟨_, hrest, .true⟩
  split at h
  · obtain ⟨hrest, rfl⟩ := expect_ok h
    exact ⟨_, hrest, .false⟩
  split at h
  · obtain ⟨hrest, rfl⟩ := expect_ok h
    exact ⟨_, hrest, .null⟩
  split at h
  · rename_i hc
    obtain ⟨s, r, hstring, h₁⟩ := bind_eq_ok (x := JsonReader.string fuel [] none) (m := m) h
    obtain ⟨body, ps, hm, hbody, rfl⟩ := string_ok hstring
    cases h₁
    exact ⟨34 :: (body ++ [34]), by rw [hc, hm]; simp, .string hbody⟩
  split at h
  · rename_i hc
    obtain ⟨g, d, r, hm, hg, h₁⟩ := behind_ok (m := m) h
    split at h₁
    · rename_i hclose
      cases h₁
      exact ⟨123 :: (g ++ [125]), by rw [hc, hm, hclose]; simp, .emptyObject hg⟩
    · obtain ⟨hquote, m', es, hr, hmembers, rfl⟩ := members_ok hV h₁
      exact ⟨123 :: (g ++ 34 :: m' ++ [125]), by rw [hc, hm, hquote, hr]; simp, .object (hmembers g hg)⟩
  split at h
  · rename_i hc
    obtain ⟨d, r, htoken, h₁⟩ := bind_eq_ok (m := m) h
    obtain ⟨g, k', hr, hm, hg, -⟩ := token_ok htoken
    split at h₁
    · rename_i hclose
      rw [hr] at h₁
      cases h₁
      exact ⟨91 :: (g ++ [93]), by rw [hc, hm, hclose]; simp, .emptyArray hg⟩
    · obtain ⟨t, vs, hr', hitems, rfl⟩ := items_ok hV h₁
      refine ⟨91 :: (g ++ t ++ [93]), ?_, .array (hitems.prepend hg)⟩
      rw [hc, hm, ← hr, hr']
      simp
  · cases h

end Sound

theorem Value.sound (hlib : ReadsNumbers lib) (fuel : Nat) : ∀ room,
    Sound strategy (Value lib strategy room) (JsonReader.json strategy fuel lib room)
  | 0 => by
    intro rest k v h
    cases h
  | room + 1 => by
    intro rest k v h
    obtain ⟨c, r, htoken, h₁⟩ := bind_eq_ok h
    obtain ⟨g, m, hr, hrest, hg, -⟩ := token_ok htoken
    rw [hr] at h₁
    obtain ⟨t, ht, hvalue⟩ := valueAt_ok hlib (Value.sound hlib fuel room) h₁
    exact ⟨g, t, by rw [hrest, ht], hg, hvalue⟩

/-- An accepted text is in the grammar. -/
theorem Document.of_run (hlib : ReadsNumbers lib) {text k : Bytes} {v : Json F} {fuel : Nat}
    (h : JsonReader.document strategy fuel lib text = .ok (v, k)) : Document lib strategy text v := by
  obtain ⟨w, r, hjson, h₁⟩ := bind_eq_ok h
  obtain ⟨g, t, rfl, hg, ht⟩ := Value.sound hlib fuel _ hjson
  obtain ⟨u, r', hgarbage, h₂⟩ := bind_eq_ok h₁
  obtain ⟨g', rfl, -, hg'⟩ := garbage_ok hgarbage
  split at h₂
  · rename_i hnil
    cases h₂
    subst hnil
    rw [List.append_nil]
    exact .mk hg ht hg'.trailer
  · cases h₂

/-! ## Every error has a message -/

/-- An error comes with a message: no loop ran out of fuel. -/
def Explains {α : Type} (x : JsonReader.ReadM α) (rest : Bytes) : Prop := ∀ e, x rest = .error e → e ≠ []

section Errors

variable {fuel : Nat}

theorem explains_ok {α : Type} {x : JsonReader.ReadM α} {rest : Bytes} {r : α × Bytes} (h : x rest = .ok r) :
    Explains x rest := by
  intro e he
  rw [h] at he
  cases he

theorem explains_error {α : Type} {rest e : Bytes} (h : e ≠ []) :
    Explains (fun _ => .error e : JsonReader.ReadM α) rest := by
  intro e' he
  cases he
  exact h

theorem Explains.bind {α β : Type} {x : JsonReader.ReadM α} {f : α → JsonReader.ReadM β} {m : Bytes} (hx : Explains x m)
    (hf : ∀ a k, x m = .ok (a, k) → Explains (f a) k) : Explains (x >>= f) m := by
  intro e he
  change (x m >>= fun p => f p.1 p.2) = _ at he
  cases hrun : x m with
  | error e' =>
    rw [hrun] at he
    cases he
    exact hx e hrun
  | ok p =>
    rw [hrun] at he
    exact hf p.1 p.2 hrun e he

theorem Explains.ite {α : Type} {c : Prop} [Decidable c] {x y : JsonReader.ReadM α} {rest : Bytes} (hx : c → Explains x rest)
    (hy : ¬ c → Explains y rest) : Explains (if c then x else y) rest := by
  by_cases h : c
  · rw [if_pos h]
    exact hx h
  · rw [if_neg h]
    exact hy h

theorem message_append {m : Bytes} (h : m ≠ []) (t : Bytes) : m ++ t ≠ [] := List.append_ne_nil_of_left_ne_nil h t

theorem comment_shorter {rest r : Bytes} (h : JsonReader.comment rest = .ok (true, r)) : r.length < rest.length := by
  unfold JsonReader.comment at h
  split at h
  · rename_i hslash
    cases rest with
    | nil => cases hslash
    | cons c rest =>
      unfold JsonReader.openComment at h
      split at h
      · cases h
      · split at h
        · cases h
          have hdrop := (List.dropWhile_suffix (· != 10) : (c :: rest).tail.tail.dropWhile (· != 10) <:+ _).length_le
          have htail : (c :: rest).tail.tail.length = rest.length - 1 := List.length_tail
          rw [List.length_cons]
          omega
        · split at h
          · obtain ⟨-, body, hrest, -⟩ := closeComment_ok h
            have hlen := congrArg List.length hrest
            have htail : (c :: rest).tail.tail.length = rest.length - 1 := List.length_tail
            rw [htail, List.length_append, List.length_cons, List.length_cons] at hlen
            rw [List.length_cons]
            omega
          · cases h
  · cases h

theorem explains_closeComment : ∀ rest : Bytes, Explains JsonReader.closeComment rest
  | [] => by
    intro e he
    cases he
    decide
  | [_] => by
    intro e he
    cases he
    decide
  | a :: b :: rest => by
    intro e he
    change (if a = 42 ∧ b = 47 then .ok (true, rest) else JsonReader.closeComment (b :: rest)) = _ at he
    split at he
    · cases he
    · exact explains_closeComment _ e he

theorem explains_comment (rest : Bytes) : Explains JsonReader.comment rest := by
  intro e he
  unfold JsonReader.comment at he
  split at he
  · unfold JsonReader.openComment at he
    split at he
    · cases he
      decide
    · split at he
      · cases he
      · split at he
        · exact explains_closeComment _ e he
        · cases he
          decide
  · cases he

theorem explains_comments : ∀ {n : Nat} {rest : Bytes}, rest.length < n → Explains (JsonReader.comments n) rest
  | 0, _, h => by cases h
  | n + 1, rest, h => by
    refine (explains_comment rest).bind fun found r hcomment => ?_
    refine Explains.bind (explains_ok rfl) fun u k hwhite => Explains.ite (fun hfound => explains_comments ?_) fun _ =>
      explains_ok rfl
    rw [hfound] at hcomment
    have hshorter := comment_shorter hcomment
    cases hwhite
    have hdrop := (List.dropWhile_suffix JsonParser.isWhite (l := r)).length_le
    omega

theorem explains_garbage {rest : Bytes} (h : rest.length < fuel) : Explains (JsonReader.garbage strategy fuel) rest := by
  refine Explains.bind (explains_ok rfl) fun u k hwhite => Explains.ite (fun _ => explains_comments ?_) fun _ =>
    explains_ok rfl
  cases hwhite
  exact Nat.lt_of_le_of_lt (List.dropWhile_suffix _).length_le h

theorem explains_token {rest : Bytes} (h : rest.length < fuel) : Explains (JsonReader.token strategy fuel) rest := by
  refine (explains_garbage h).bind fun u k _ => ?_
  cases k with
  | nil =>
    intro e he
    cases he
    decide
  | cons c k => exact explains_ok rfl

theorem explains_string : ∀ {n : Nat} {rest : Bytes} (out : Bytes) (last : Option Nat), rest.length < n →
    Explains (JsonReader.string n out last) rest
  | 0, _, _, _, h => by cases h
  | n + 1, [], out, last, _ => by
    intro e he
    cases he
    decide
  | n + 1, ch :: rest, out, last, h => by
    have hlen : rest.length < n := Nat.lt_of_succ_lt_succ h
    show Explains (if ch = 34 then _ else if ch ≤ 0x1f then _ else if ch ≠ 92 then _ else _ : JsonReader.ReadM Bytes) rest
    refine Explains.ite (fun _ => explains_ok rfl) fun _ => Explains.ite (fun _ => explains_error ?_) fun _ =>
      Explains.ite (fun _ => explains_string _ _ hlen) fun _ => ?_
    · exact message_append (message_append (by decide) _) _
    cases rest with
    | nil =>
      intro e he
      cases he
      decide
    | cons e rest =>
      have hlen' : rest.length < n := Nat.lt_of_succ_lt hlen
      show Explains (if e = 117 then _ else _ : JsonReader.ReadM Bytes) rest
      refine Explains.ite (fun _ => ?_) fun _ => ?_
      · intro err herr
        change (if (rest.take 4).length < 4 ∨ (rest.take 4).any (fun c => !JsonParser.isHex c) = true then _ else _) =
          _ at herr
        split at herr
        · cases herr
          exact message_append (by decide) _
        · exact explains_string _ _ (Nat.lt_of_le_of_lt (by rw [List.length_drop]; omega) hlen') err herr
      · cases JsonParser.unescape e with
        | some c => exact explains_string _ _ hlen'
        | none => exact explains_error (message_append (by decide) _)

section Number

variable {f : JsonReader.ReadM (Json F)}

theorem explains_optional {p : UInt8 → Bool} (hf : ∀ r, Explains f r) (rest : Bytes) :
    Explains (JsonReader.optional p f) rest := by
  intro e he
  unfold JsonReader.optional at he
  split at he
  · exact hf _ e he
  · exact hf _ e he

theorem explains_someDigits {message : Bytes} (hm : message ≠ []) (hf : ∀ r, Explains f r) (rest : Bytes) :
    Explains (JsonReader.someDigits message f) rest := by
  intro e he
  unfold JsonReader.someDigits at he
  split at he
  · exact hf _ e he
  · cases he
    exact hm

theorem explains_integerPart (hf : ∀ r, Explains f r) (rest : Bytes) : Explains (JsonReader.integerPart f) rest := by
  intro e he
  unfold JsonReader.integerPart at he
  split at he
  · split at he
    · cases he
      decide
    · exact hf _ e he
  · split at he
    · exact hf _ e he
    · cases he
      exact message_append (message_append (by decide) _) _

theorem explains_decimalPart (hf : ∀ r, Explains f r) (rest : Bytes) : Explains (JsonReader.decimalPart f) rest := by
  intro e he
  unfold JsonReader.decimalPart at he
  split at he
  · exact explains_someDigits (by decide) hf _ e he
  · exact hf _ e he

theorem explains_exponentPart (hf : ∀ r, Explains f r) (rest : Bytes) : Explains (JsonReader.exponentPart f) rest := by
  intro e he
  unfold JsonReader.exponentPart at he
  split at he
  · exact explains_optional (explains_someDigits (by decide) hf) _ e he
  · exact hf _ e he

theorem explains_number (rest : Bytes) : Explains (JsonReader.number lib) rest := by
  refine explains_optional (explains_integerPart fun r => ?_) rest
  intro e he
  dsimp only at he
  split at he
  · cases he
  · exact explains_decimalPart (explains_exponentPart fun r => explains_ok rfl) _ e he

end Number

theorem explains_expect (expected : Bytes) (res : Json F) (rest : Bytes) :
    Explains (JsonReader.expect expected res) rest := by
  intro e he
  unfold JsonReader.expect at he
  split at he
  · cases he
  · cases he
    exact message_append (message_append (message_append (by decide) _) _) _

section Values

variable {V : Bytes → Json F → Prop} {read : JsonReader.ReadM (Json F)}

theorem explains_behind {β : Type} {f : UInt8 → JsonReader.ReadM β} {m : Bytes} (h : m.length < fuel)
    (hf : ∀ c k, k.length < m.length → Explains (f c) k) :
    Explains (JsonReader.token strategy fuel >>= JsonReader.behind f) m := by
  refine (explains_token h).bind fun c r htoken => ?_
  obtain ⟨g, k, rfl, rfl, -⟩ := token_ok htoken
  exact hf c k (by simp; omega)

/-- What the loops over items and members need of the values. -/
structure Consumes (strategy : JsonParse) (fuel : Nat) (read : JsonReader.ReadM (Json F)) : Prop where
  explains : ∀ {rest}, rest.length < fuel → Explains read rest
  shorter : ∀ {rest k v}, read rest = .ok (v, k) → k.length < rest.length

theorem explains_items (hread : Consumes strategy fuel read) :
    ∀ {n : Nat} {rest : Bytes} (data : List (Json F)), rest.length < n → rest.length < fuel →
    Explains (JsonReader.items strategy fuel read n data) rest
  | 0, _, _, h, _ => by cases h
  | n + 1, rest, data, h, hfuel => by
    refine (hread.explains hfuel).bind fun v k hrun => ?_
    have hk := hread.shorter hrun
    refine explains_behind (by omega) fun c k' hk' => Explains.ite (fun _ => explains_ok rfl) fun _ =>
      Explains.ite (fun _ => explains_error (message_append (by decide) _)) fun _ => ?_
    refine (explains_token (by omega)).bind fun d r htoken => ?_
    obtain ⟨g, k'', hr, hk'', -⟩ := token_ok htoken
    have hlen := congrArg List.length hk''
    rw [List.length_append, ← hr] at hlen
    exact explains_items hread _ (by omega) (by omega)

theorem explains_members (hread : Consumes strategy fuel read) :
    ∀ {n : Nat} {rest : Bytes} (data : SortedMap (Json F) strKey) (ch : UInt8),
    rest.length < n → rest.length < fuel → Explains (JsonReader.members strategy fuel read n data ch) rest
  | 0, _, _, _, h, _ => by cases h
  | n + 1, rest, data, ch, h, hfuel => by
    refine Explains.ite (fun _ => explains_error (message_append (by decide) _)) fun _ => ?_
    refine (explains_string _ _ hfuel).bind fun key r hstring => ?_
    obtain ⟨body, ps, rfl, -⟩ := string_ok hstring
    have hr : r.length < (body ++ 34 :: r).length := by simp; omega
    refine explains_behind (by omega) fun c k hk =>
      Explains.ite (fun _ => explains_error (message_append (by decide) _)) fun _ => ?_
    refine (hread.explains (by omega)).bind fun v k' hrun => ?_
    have hk' := hread.shorter hrun
    refine explains_behind (by omega) fun d k'' hk'' => Explains.ite (fun _ => explains_ok rfl) fun _ =>
      Explains.ite (fun _ => explains_error (message_append (by decide) _)) fun _ => ?_
    exact explains_behind (by omega) fun e k₃ hk₃ => explains_members hread _ _ (by omega) (by omega)

theorem explains_valueAt (hread : Consumes strategy fuel read) {rest : Bytes} (h : rest.length < fuel) (c : UInt8) :
    Explains (JsonReader.valueAt strategy fuel lib read c) rest := by
  have hdrop : (rest.drop 1).length < fuel := by
    rw [List.length_drop]
    omega
  refine Explains.ite (fun _ => explains_number rest) fun _ => Explains.ite (fun _ => explains_expect _ _ rest) fun _ =>
    Explains.ite (fun _ => explains_expect _ _ rest) fun _ => Explains.ite (fun _ => explains_expect _ _ rest) fun _ =>
    Explains.ite (fun _ => ?_) fun _ => Explains.ite (fun _ => ?_) fun _ => Explains.ite (fun _ => ?_) fun _ =>
    explains_error (message_append (by decide) _)
  · exact Explains.bind (m := rest.drop 1) (explains_string _ _ hdrop) fun _ _ _ => explains_ok rfl
  · exact explains_behind (m := rest.drop 1) hdrop fun d k hk => Explains.ite (fun _ => explains_ok rfl) fun _ =>
      explains_members hread _ _ (by omega) (by omega)
  · refine Explains.bind (m := rest.drop 1) (explains_token hdrop) fun d r htoken =>
      Explains.ite (fun _ => explains_ok rfl) fun _ => ?_
    obtain ⟨g, k, hr, hrest, -⟩ := token_ok htoken
    have hlen := congrArg List.length hrest
    rw [List.length_append, ← hr] at hlen
    exact explains_items hread _ (by omega) (by omega)

end Values

theorem consumes_json (hlib : ReadsNumbers lib) (fuel : Nat) :
    ∀ room, Consumes strategy fuel (JsonReader.json strategy fuel lib room)
  | 0 => by
    refine ⟨fun h e he => ?_, fun h => by cases h⟩
    cases he
    decide
  | room + 1 => by
    refine ⟨fun h => (explains_token h).bind fun c r htoken => ?_, fun {rest k v} h => ?_⟩
    · obtain ⟨g, k, hr, hrest, -⟩ := token_ok htoken
      have hlen := congrArg List.length hrest
      rw [List.length_append, ← hr] at hlen
      exact explains_valueAt (consumes_json hlib fuel room) (by omega) c
    · obtain ⟨g, t, rfl, hg, ht⟩ := Value.sound hlib fuel _ h
      obtain ⟨c, t', rfl, -⟩ := ValueOf.starts ht
      simp
      omega

theorem explains_document (hlib : ReadsNumbers lib) {text : Bytes} (h : text.length < fuel) :
    Explains (JsonReader.document strategy fuel lib) text := by
  have hjson : Consumes strategy fuel _ := consumes_json hlib fuel (JsonParser.maxDepth + 1)
  refine (hjson.explains h).bind fun v k hrun => (explains_garbage ((hjson.shorter hrun).trans h)).bind fun u r hr => ?_
  intro e he
  dsimp only at he
  split at he
  · cases he
  · cases he
    exact message_append (by decide) _

end Errors

end JsonGrammar

/-! ## The parser -/

namespace Json

open JsonGrammar

variable {F : Type} {lib : DoubleLib F}

theorem parse_ok_iff (hlib : ReadsNumbers lib) {strategy : JsonParse} {text : Bytes} {v : Json F} :
    parse lib text strategy = some (v, []) ↔ Document lib strategy text v := by
  have hexplains : Explains (JsonReader.document strategy _ lib) text :=
    explains_document hlib (Nat.lt_succ_self text.length)
  rw [parse_eq]
  refine ⟨fun h => ?_, fun h => ?_⟩
  · cases hrun : JsonReader.document strategy (text.length + 1) lib text with
    | error err =>
      rw [hrun] at h
      cases h
      exact absurd rfl (hexplains _ hrun)
    | ok p =>
      rw [hrun] at h
      cases h
      exact Document.of_run hlib hrun
  · rw [h.run hlib (Nat.lt_succ_self _)]
    rfl

theorem parse_refused (hlib : ReadsNumbers lib) {strategy : JsonParse} {text : Bytes}
    (h : ∀ v, ¬ Document lib strategy text v) :
    ∃ err, err ≠ [] ∧ parse lib text strategy = some (.null, err) := by
  rw [parse_eq]
  cases hrun : JsonReader.document strategy (text.length + 1) lib text with
  | error err => exact ⟨err, explains_document hlib (Nat.lt_succ_self text.length) _ hrun, rfl⟩
  | ok p => exact absurd (Document.of_run hlib hrun) (h p.1)

/-- The parser gives a value without an error exactly on the texts of the grammar, and this value; on any other text
it gives null and a message. -/
theorem parse_document (hlib : ReadsNumbers lib) (strategy : JsonParse) (text : Bytes) :
    (∀ v, parse lib text strategy = some (v, []) ↔ Document lib strategy text v) ∧
      ((∀ v, ¬ Document lib strategy text v) → ∃ err, err ≠ [] ∧ parse lib text strategy = some (.null, err)) :=
  ⟨fun _ => parse_ok_iff hlib, parse_refused hlib⟩

/-- Whole numbers in the place of `double`: what stands in front of the decimal point is read. -/
def wholeNumbers : DoubleLib Int where
  ofInt n := n
  strtod := JsonParser.atoi
  print := intText
  isFinite _ := true
  eq x y := x == y

theorem readsNumbers_wholeNumbers : ReadsNumbers wholeNumbers := by
  intro sign int frac exp k h hk _
  have hall := atoi_digits h.sign h.digits.1 h.digits.2
    (h.fracHead (k := []) ⟨rfl, fun _ _ => by decide, fun _ => by decide⟩)
  rw [List.append_nil] at hall
  exact (atoi_digits h.sign h.digits.1 h.digits.2 (h.fracHead hk)).trans hall.symm

theorem parse_document_pair : ∃ v, Document wholeNumbers .standard (ascii "[1, -12345678901]") v ∧
    v.equals wholeNumbers (.array [.int 1, .double (-12345678901)]) = true := by
  have hrun : (parse wholeNumbers (ascii "[1, -12345678901]") .standard).any (fun r =>
      r.2.isEmpty && r.1.equals wholeNumbers (.array [.int 1, .double (-12345678901)])) = true := by decide +kernel
  obtain ⟨⟨v, err⟩, hparse, hv⟩ := (Option.any_eq_true _ _).1 hrun
  obtain ⟨herr, hv⟩ := (Bool.and_eq_true_iff.1 hv)
  have herr : err = [] := List.isEmpty_iff.1 herr
  rw [herr] at hparse
  exact ⟨v, ((parse_document readsNumbers_wholeNumbers .standard _).1 v).1 hparse, hv⟩

end Json

end FortiRdp.Util
