/-
Printing a JSON tree and parsing the text gives the tree back, up to the comparison of numbers.
-/
import FortiRdp.Util.JsonGrammar

namespace FortiRdp.Util

open Run

namespace JsonGrammar

/-! ## Strings -/

/-- A code point that is no lead surrogate stands for itself. -/
theorem decode_code {pt : Nat} (h : JsonParser.isLead pt = false) :
    ∀ ps, decode (.code pt :: ps) = JsonParser.encodeUtf8 pt ++ decode ps
  | [] => rfl
  | .char _ :: _ => rfl
  | .code trail :: ps => by
    show (if JsonParser.isLead pt && JsonParser.isTrail trail then _ else _) = _
    rw [h, Bool.false_and, if_neg Bool.false_ne_true]

/-- A printed character is a piece of a string. -/
def Prints (text : Bytes) (chars : Bytes) : Prop :=
  ∃ p, PieceText text p ∧ ∀ ps, decode (p :: ps) = chars ++ decode ps

theorem prints_escape {e c : UInt8} (h : JsonParser.unescape e = some c) : Prints [92, e] [c] := ⟨_, .escape h, fun _ => rfl⟩

theorem prints_code (digits : Bytes) {chars : Bytes} {pt : Nat} (hlen : digits.length = 4)
    (hhex : ∀ d ∈ digits, JsonParser.isHex d = true)
    (hvalue : readDigits 16 0 digits = pt) (hlead : JsonParser.isLead pt = false)
    (hchars : JsonParser.encodeUtf8 pt = chars) :
    Prints (92 :: 117 :: digits) chars := by
  refine ⟨_, .code hlen hhex, fun ps => ?_⟩
  rw [hvalue, decode_code hlead, hchars]

theorem prints_control : ∀ n < 32, Prints (ascii "\\u00" ++ [Json.hexChar (n / 16), Json.hexChar (n % 16)]) [n.toUInt8] := by
  intro n hn
  have key : ∀ n < 32, [48, 48, Json.hexChar (n / 16), Json.hexChar (n % 16)].all JsonParser.isHex = true ∧
      readDigits 16 0 [48, 48, Json.hexChar (n / 16), Json.hexChar (n % 16)] = n ∧ JsonParser.isLead n = false ∧
      JsonParser.encodeUtf8 n = [n.toUInt8] := by decide
  obtain ⟨hhex, hvalue, hlead, hchars⟩ := key n hn
  exact prints_code _ rfl (List.all_eq_true.1 hhex) hvalue hlead hchars

theorem prints_char (ch : UInt8) : Prints (Json.dumpChar ch) [ch] := by
  unfold Json.dumpChar
  split
  · rename_i h
    rw [h]
    exact prints_escape rfl
  split
  · rename_i h
    rw [h]
    exact prints_escape rfl
  split
  · rename_i h
    rw [h]
    exact prints_escape rfl
  split
  · rename_i h
    rw [h]
    exact prints_escape rfl
  split
  · rename_i h
    rw [h]
    exact prints_escape rfl
  split
  · rename_i h
    rw [h]
    exact prints_escape rfl
  split
  · rename_i h
    rw [h]
    exact prints_escape rfl
  split
  · rename_i h
    have hprints := prints_control ch.toNat (Nat.lt_succ_of_le h)
    rw [show ch.toNat.toUInt8 = ch from UInt8.ofNat_toNat] at hprints
    exact hprints
  · rename_i hescape hquote _ _ _ _ _ hcontrol
    exact ⟨_, .plain hcontrol hquote hescape, fun _ => rfl⟩

theorem prints_lineSeparator : Prints (ascii "\\u2028") [0xe2, 0x80, 0xa8] :=
  prints_code (ascii "2028") rfl (List.all_eq_true.1 (by decide)) rfl (by decide) rfl

theorem prints_paragraphSeparator : Prints (ascii "\\u2029") [0xe2, 0x80, 0xa9] :=
  prints_code (ascii "2029") rfl (List.all_eq_true.1 (by decide)) rfl (by decide) rfl

theorem Prints.cons {text chars rest s : Bytes} (h : Prints text chars) (hrest : ∃ ps, StringText rest ps ∧ decode ps = s) :
    ∃ ps, StringText (text ++ rest) ps ∧ decode ps = chars ++ s := by
  obtain ⟨p, hp, hdecode⟩ := h
  obtain ⟨ps, hps, rfl⟩ := hrest
  exact ⟨p :: ps, .cons hp hps, hdecode ps⟩

/-- The printed text of a string stands for the string. -/
theorem prints_string (s : Bytes) : ∃ ps, StringText (Json.dumpChars 0 s) ps ∧ decode ps = s := by
  induction hn : s.length using Nat.strong_induction_on generalizing s with
  | _ n ih =>
    cases s with
    | nil => exact ⟨[], .nil, rfl⟩
    | cons ch s =>
      subst hn
      have hskip (c : UInt8) (h : s.take 2 = [0x80, c]) : ∃ s',
          s = 0x80 :: c :: s' ∧ Json.dumpChars 2 s = Json.dumpChars 0 s' := by
        refine ⟨s.drop 2, ?_, ?_⟩
        · conv_lhs => rw [← List.take_append_drop 2 s, h]
          rfl
        · have hs : s = 0x80 :: c :: s.drop 2 := by
            conv_lhs => rw [← List.take_append_drop 2 s, h]
            rfl
          rw [hs]
          rfl
      unfold Json.dumpChars
      split
      · rename_i hline
        obtain ⟨rfl, htake⟩ := hline
        obtain ⟨s', rfl, hdump⟩ := hskip _ htake
        rw [hdump]
        exact prints_lineSeparator.cons (ih s'.length (by simp only [List.length_cons]; omega) s' rfl)
      split
      · rename_i hpara
        obtain ⟨rfl, htake⟩ := hpara
        obtain ⟨s', rfl, hdump⟩ := hskip _ htake
        rw [hdump]
        exact prints_paragraphSeparator.cons (ih s'.length (by simp only [List.length_cons]; omega) s' rfl)
      · exact (prints_char ch).cons (ih s.length (by simp) s rfl)

/-! ## Numbers -/

theorem digits_decimal (n : Nat) : Digits (Net.Endpoint.decimal n) := fun _ hc => Net.Endpoint.isdigit_decimal hc

theorem decimal_append {n : Nat} (h : 10 ≤ n) : ∃ d, Net.Endpoint.decimal n = Net.Endpoint.decimal (n / 10) ++ [d] := by
  refine ⟨(n % 10).digitChar.toNat.toUInt8, ?_⟩
  unfold Net.Endpoint.decimal ascii
  rw [show (toString n).toList = Nat.toDigits 10 n from Nat.toList_repr,
    show (toString (n / 10)).toList = Nat.toDigits 10 (n / 10) from Nat.toList_repr,
      Nat.toDigits_of_base_le (by decide) h, List.map_append]
  rfl

/-- The text of a positive number has no leading zero. -/
theorem decimal_head (n : Nat) (h : 0 < n) : ∃ d ds, Net.Endpoint.decimal n = d :: ds ∧ (49 ≤ d && d ≤ 57) = true := by
  induction n using Nat.strong_induction_on with
  | _ n ih =>
    by_cases hlt : n < 10
    · have hdigit : Net.Endpoint.decimal n = [(48 + n).toUInt8] := by
        unfold Net.Endpoint.decimal ascii
        rw [show (toString n).toList = Nat.toDigits 10 n from Nat.toList_repr, Nat.toDigits_of_lt_base hlt]
        have key : ∀ n < 10, [n.digitChar].map (fun c => c.toNat.toUInt8) = [(48 + n).toUInt8] := by decide
        exact key n hlt
      have key : ∀ n < 10, 0 < n → (49 ≤ (48 + n).toUInt8 && (48 + n).toUInt8 ≤ 57) = true := by decide
      exact ⟨_, [], hdigit, key n hlt h⟩
    · obtain ⟨d, ds, hds, hd⟩ := ih (n / 10) (by omega) (by omega)
      obtain ⟨e, he⟩ := decimal_append (n := n) (by omega)
      exact ⟨d, ds ++ [e], by rw [he, hds]; rfl, hd⟩

/-- The sign and the digits of an `int`. -/
theorem intText_number (n : Int) : ∃ sign int,
    intText n = sign ++ int ∧ NumberText sign int [] [] ∧ JsonParser.atoi (sign ++ int) = n := by
  have hint (m : Nat) : Net.Endpoint.decimal m = [48] ∨ ∃ d ds,
      Net.Endpoint.decimal m = d :: ds ∧ (49 ≤ d && d ≤ 57) = true ∧ Digits ds := by
    rcases Nat.eq_zero_or_pos m with rfl | hm
    · exact .inl rfl
    · obtain ⟨d, ds, hds, hd⟩ := decimal_head m hm
      refine .inr ⟨d, ds, hds, hd, fun c hc => digits_decimal m c ?_⟩
      rw [hds]
      exact List.mem_cons_of_mem _ hc
  have hvalue (m : Nat) : digitsValue 10 (Net.Endpoint.decimal m) = m := (Net.Endpoint.numeral_decimal m).value
  have hne (m : Nat) : Net.Endpoint.decimal m ≠ [] := (Net.Endpoint.numeral_decimal m).ne
  unfold intText
  split
  · rename_i hneg
    refine ⟨[45], Net.Endpoint.decimal n.natAbs, rfl, ⟨.inr rfl, hint _, .inl rfl, .inl rfl⟩, ?_⟩
    have hatoi := atoi_digits (k := []) (.inr rfl) (hne n.natAbs) (digits_decimal n.natAbs) rfl
    rw [List.append_nil, hvalue, if_neg (List.cons_ne_nil _ _)] at hatoi
    rw [hatoi]
    omega
  · refine ⟨[], Net.Endpoint.decimal n.natAbs, rfl, ⟨.inl rfl, hint _, .inl rfl, .inl rfl⟩, ?_⟩
    have hatoi := atoi_digits (k := []) (.inl rfl) (hne n.natAbs) (digits_decimal n.natAbs) rfl
    rw [List.append_nil, hvalue, if_pos rfl] at hatoi
    rw [hatoi]
    omega

/-- What printing and reading numbers is relied on for: `%.17g` gives the text of a number, `strtod` reads it back, and
reads the text of an `int` as its value; `==` is symmetric and transitive. -/
structure KeepsNumbers {F : Type} (lib : DoubleLib F) : Prop where
  print : ∀ x, lib.isFinite x = true → ∃ sign int frac exp,
    lib.print x = sign ++ (int ++ (frac ++ exp)) ∧ NumberText sign int frac exp
  strtod_print : ∀ x, lib.isFinite x = true → lib.eq (lib.strtod (lib.print x)) x = true
  strtod_int : ∀ sign int, NumberText sign int [] [] → longMin ≤ JsonParser.atoi (sign ++ int) →
    JsonParser.atoi (sign ++ int) ≤ longMax →
    lib.eq (lib.strtod (sign ++ int)) (lib.ofInt (JsonParser.atoi (sign ++ int))) = true
  symm : ∀ x y, lib.eq x y = true → lib.eq y x = true
  trans : ∀ x y z, lib.eq x y = true → lib.eq y z = true → lib.eq x z = true

/-! ## Trees -/

variable {F : Type} {lib : DoubleLib F} {strategy : JsonParse}

/-- A tree that can be printed and read back: it has at most so many levels, its integers fit in an `int`, its doubles
are finite, and the entries of its objects are in the order of the keys. -/
inductive Printable (lib : DoubleLib F) : Nat → Json F → Prop
  | null {n : Nat} : Printable lib (n + 1) .null
  | bool {n : Nat} {b : Bool} : Printable lib (n + 1) (.bool b)
  | int {n : Nat} {value : Int} (hmin : longMin ≤ value) (hmax : value ≤ longMax) : Printable lib (n + 1) (.int value)
  | double {n : Nat} {x : F} (h : lib.isFinite x = true) : Printable lib (n + 1) (.double x)
  | string {n : Nat} {s : Bytes} : Printable lib (n + 1) (.string s)
  | array {n : Nat} {vs : List (Json F)} (h : ∀ v ∈ vs, Printable lib n v) : Printable lib (n + 1) (.array vs)
  | object {n : Nat} {es : List (Bytes × Json F)} (hsorted : es.Pairwise fun e e' => strKey e.1 < strKey e'.1)
    (h : ∀ e ∈ es, Printable lib n e.2) : Printable lib (n + 1) (.object es)

/-! ### Numbers -/

theorem digits_lt : ∀ (ds : Bytes) (acc : Nat), Digits ds →
    ds.foldl (fun n c => n * 10 + (digitValue c).getD 0) acc < (acc + 1) * 10 ^ ds.length
  | [], acc, _ => by simp
  | c :: ds, acc, h => by
    have hdigit : (digitValue c).getD 0 < 10 := by
      have hc := h c (List.mem_cons_self ..)
      have hradix := Net.Endpoint.isRadixDigit_ten c
      rw [hc, isRadixDigit, Option.any_eq_true] at hradix
      obtain ⟨d, hd, hlt⟩ := hradix
      rw [hd]
      exact of_decide_eq_true hlt
    have ih := digits_lt ds (acc * 10 + (digitValue c).getD 0) fun d hd => h d (List.mem_cons_of_mem _ hd)
    rw [List.foldl_cons, List.length_cons]
    calc ds.foldl (fun n c => n * 10 + (digitValue c).getD 0) (acc * 10 + (digitValue c).getD 0)
      _ < (acc * 10 + (digitValue c).getD 0 + 1) * 10 ^ ds.length := ih
      _ ≤ (acc + 1) * 10 * 10 ^ ds.length := Nat.mul_le_mul_right _ (by omega)
      _ = (acc + 1) * 10 ^ (ds.length + 1) := by rw [Nat.pow_succ, Nat.mul_assoc, Nat.mul_comm 10]

/-- A short number fits in an `int`. -/
theorem short_range {sign int : Bytes} (h : NumberText sign int [] []) (hlen : (sign ++ int).length ≤ 9) :
    longMin ≤ JsonParser.atoi (sign ++ int) ∧ JsonParser.atoi (sign ++ int) ≤ longMax := by
  have hatoi := atoi_digits (k := []) h.sign h.digits.1 h.digits.2 rfl
  rw [List.append_nil] at hatoi
  have hlt : digitsValue 10 int < (0 + 1) * 10 ^ int.length := digits_lt int 0 h.digits.2
  rw [List.length_append] at hlen
  have hpow : 10 ^ int.length ≤ 10 ^ 9 := Nat.pow_le_pow_right (by decide) (by omega)
  rw [hatoi]
  unfold longMin longMax
  split
  · omega
  · omega

/-- The number that a text is read as compares as what `strtod` makes of the text. -/
theorem numberIn_equals (hlib : KeepsNumbers lib) {x : Json F} (value : F)
    (hdouble : ∀ y, Json.equals lib (.double y) x = lib.eq y value)
    (hint : ∀ n, Json.equals lib (.int n) x = lib.eq (lib.ofInt n) value) {sign int frac exp : Bytes}
    (h : NumberText sign int frac exp)
    (hvalue : lib.eq (lib.strtod (sign ++ (int ++ (frac ++ exp)))) value = true) :
    Json.equals lib (numberIn lib sign int frac exp (sign ++ (int ++ (frac ++ exp)))) x = true := by
  unfold numberIn
  by_cases hs : Short sign int frac exp
  · obtain ⟨rfl, rfl, hlen⟩ := id hs
    obtain ⟨hmin, hmax⟩ := short_range h hlen
    rw [if_pos hs, hint]
    simp only [List.append_nil] at hvalue ⊢
    exact hlib.trans _ _ _ (hlib.symm _ _ (hlib.strtod_int sign int h hmin hmax)) hvalue
  · rw [if_neg hs, hdouble]
    exact hvalue

/-! ### Items and members -/

/-- The printed text stands for a value that is equal. -/
def PrintsAs (lib : DoubleLib F) (strategy : JsonParse) (n : Nat) (v : Json F) : Prop :=
  ∃ w, Value lib strategy n (v.dump lib) w ∧ w.equals lib v = true

theorem prints_items {n : Nat} : ∀ {vs : List (Json F)} {v : Json F} {g : Bytes}, Garbage strategy g →
    PrintsAs lib strategy n v →
    (∀ v ∈ vs, PrintsAs lib strategy n v) →
    ∃ ws, Items strategy (Value lib strategy n) (g ++ (v.dump lib ++ Json.dumpItems lib false vs)) ws ∧
      Json.equalItems lib ws (v :: vs) = true
  | [], v, g, hg, hv, _ => by
    obtain ⟨w, hw, heq⟩ := hv
    refine ⟨[w], .last hg hw .nil, ?_⟩
    unfold Json.equalItems
    rw [heq]
    rfl
  | v' :: vs, v, g, hg, hv, hvs => by
    obtain ⟨w, hw, heq⟩ := hv
    obtain ⟨ws, hws, heqs⟩ := prints_items (.white (c := 32) rfl .nil) (hvs v' (List.mem_cons_self ..))
      fun u hu => hvs u (List.mem_cons_of_mem _ hu)
    have hdump : Json.dumpItems lib false (v' :: vs) =
        [] ++ 44 :: ([32] ++ (v'.dump lib ++ Json.dumpItems lib false vs)) := by
      rw [Json.dumpItems, if_neg Bool.false_ne_true, List.append_assoc]
      rfl
    refine ⟨w :: ws, by rw [hdump]; exact .cons hg hw .nil hws, ?_⟩
    unfold Json.equalItems
    rw [heq, heqs]
    rfl

theorem prints_member {n : Nat} {v w : Json F} (key : Bytes) (hw : Value lib strategy n (v.dump lib) w) :
    ∃ m, Json.dumpString key ++ (ascii ": " ++ v.dump lib) = 34 :: m ∧
        Member strategy (Value lib strategy n) m (key, w) := by
  obtain ⟨ps, hps, hdecode⟩ := prints_string key
  refine ⟨Json.dumpChars 0 key ++ 34 :: ([] ++ 58 :: ([32] ++ v.dump lib)), ?_, ?_⟩
  · unfold Json.dumpString
    rw [List.append_assoc, List.append_assoc]
    rfl
  · have hm : Member strategy (Value lib strategy n) _ (decode ps, w) := .mk hps .nil (.white (c := 32) rfl .nil) hw
    rw [hdecode] at hm
    exact hm

/-- The members keep their keys. -/
theorem prints_members {n : Nat} : ∀ {es : List (Bytes × Json F)} {e : Bytes × Json F} {g : Bytes}, Garbage strategy g →
    PrintsAs lib strategy n e.2 → (∀ e ∈ es, PrintsAs lib strategy n e.2) →
    ∃ ds, Members strategy (Value lib strategy n)
        (g ++ (Json.dumpString e.1 ++ (ascii ": " ++ e.2.dump lib) ++ Json.dumpEntries lib false es)) ds ∧
      ds.map Prod.fst = (e :: es).map Prod.fst ∧ Json.equalEntries lib ds (e :: es) = true
  | [], e, g, hg, hv, _ => by
    obtain ⟨w, hw, heq⟩ := hv
    obtain ⟨m, hm, hmember⟩ := prints_member e.1 hw
    refine ⟨[(e.1, w)], ?_, rfl, ?_⟩
    · rw [hm]
      exact .last hg hmember .nil
    · rw [← Prod.mk.eta (p := e)]
      unfold Json.equalEntries
      rw [heq, beq_self_eq_true]
      rfl
  | e' :: es, e, g, hg, hv, hes => by
    obtain ⟨w, hw, heq⟩ := hv
    obtain ⟨m, hm, hmember⟩ := prints_member e.1 hw
    obtain ⟨ds, hds, hkeys, heqs⟩ := prints_members (.white (c := 32) rfl .nil) (hes e' (List.mem_cons_self ..))
      fun u hu => hes u (List.mem_cons_of_mem _ hu)
    have hdump : Json.dumpEntries lib false (e' :: es) =
        [] ++ 44 :: ([32] ++ (Json.dumpString e'.1 ++ (ascii ": " ++ e'.2.dump lib) ++ Json.dumpEntries lib false es)) := by
      rw [← Prod.mk.eta (p := e'), Json.dumpEntries, if_neg Bool.false_ne_true]
      simp only [List.append_assoc]
      rfl
    refine ⟨(e.1, w) :: ds, ?_, by rw [List.map_cons, hkeys]; rfl, ?_⟩
    · rw [hdump, hm]
      exact .cons hg hmember .nil hds
    · rw [← Prod.mk.eta (p := e)]
      unfold Json.equalEntries
      rw [heq, heqs, beq_self_eq_true]
      rfl

/-- What is printed is the text of a value that is equal to the tree. -/
theorem Printable.prints (hlib : KeepsNumbers lib) {n : Nat} {v : Json F} (h : Printable lib n v) :
    PrintsAs lib strategy n v := by
  induction h with
  | null => exact ⟨.null, .null, by unfold Json.equals; rfl⟩
  | @bool n b =>
    cases b with
    | true => exact ⟨.bool true, .true, by unfold Json.equals; rfl⟩
    | false => exact ⟨.bool false, .false, by unfold Json.equals; rfl⟩
  | @int n value hmin hmax =>
    obtain ⟨sign, int, htext, hnumber, hatoi⟩ := intText_number value
    have hvalue := hlib.strtod_int sign int hnumber (hatoi.symm ▸ hmin) (hatoi.symm ▸ hmax)
    have hdump : (Json.int value : Json F).dump lib = sign ++ (int ++ ([] ++ [])) := by
      rw [List.append_nil, List.append_nil, ← htext]
      unfold Json.dump
      rfl
    refine ⟨_, by rw [hdump]; exact .number hnumber, ?_⟩
    refine numberIn_equals hlib (lib.ofInt value) (fun y => by unfold Json.equals; rfl) (fun m => by unfold Json.equals; rfl) hnumber ?_
    rw [List.append_nil, List.append_nil, hatoi.symm]
    exact hvalue
  | @double n x hx =>
    obtain ⟨sign, int, frac, exp, htext, hnumber⟩ := hlib.print x hx
    have hvalue := hlib.strtod_print x hx
    have hdump : (Json.double x).dump lib = sign ++ (int ++ (frac ++ exp)) := by
      rw [← htext]
      unfold Json.dump Json.dumpDouble
      rw [if_pos hx]
    refine ⟨_, by rw [hdump]; exact .number hnumber, ?_⟩
    exact numberIn_equals hlib x (fun y => by unfold Json.equals; rfl) (fun m => by unfold Json.equals; rfl) hnumber (htext ▸ hvalue)
  | @string n s =>
    obtain ⟨ps, hps, hdecode⟩ := prints_string s
    refine ⟨.string s, ?_, by unfold Json.equals; exact beq_self_eq_true s⟩
    have hvalue : Value lib strategy (n + 1) (34 :: (Json.dumpChars 0 s ++ [34])) (.string (decode ps)) := .string hps
    rw [hdecode] at hvalue
    exact hvalue
  | @array n vs _ ih =>
    cases vs with
    | nil =>
      refine ⟨.array [], ?_, by unfold Json.equals Json.equalItems; rfl⟩
      unfold Json.dump Json.dumpItems
      exact .emptyArray .nil
    | cons v vs =>
      obtain ⟨ws, hws, heq⟩ := prints_items .nil (ih v (List.mem_cons_self ..)) fun u hu => ih u (List.mem_cons_of_mem _ hu)
      refine ⟨.array ws, ?_, by unfold Json.equals; exact heq⟩
      unfold Json.dump Json.dumpItems
      exact .array hws
  | @object n es hsorted _ ih =>
    cases es with
    | nil =>
      refine ⟨.object [], ?_, by unfold Json.equals Json.equalEntries; rfl⟩
      unfold Json.dump Json.dumpEntries
      exact .emptyObject .nil
    | cons e es =>
      obtain ⟨ds, hds, hkeys, heq⟩ := prints_members .nil (ih e (List.mem_cons_self ..)) fun u hu =>
        ih u (List.mem_cons_of_mem _ hu)
      have hpair : ds.Pairwise fun e e' => strKey e.1 < strKey e'.1 := by
        have hmap : ((e :: es).map Prod.fst).Pairwise fun k k' => strKey k < strKey k' :=
          (List.pairwise_map (f := Prod.fst)).2 hsorted
        rw [← hkeys] at hmap
        exact (List.pairwise_map (f := Prod.fst)).1 hmap
      have hentries : ((SortedMap.empty : SortedMap (Json F) strKey).setAll ds).entries = ds :=
        SortedMap.entries_setAll hpair
      refine ⟨.object ds, ?_, by unfold Json.equals; exact heq⟩
      have hvalue : Value lib strategy (n +
        1) _ (.object ((SortedMap.empty : SortedMap (Json F) strKey).setAll ds).entries) := .object hds
      rw [hentries] at hvalue
      unfold Json.dump
      rw [← Prod.mk.eta (p := e), Json.dumpEntries]
      simp only [List.append_assoc, if_true, List.nil_append] at hvalue ⊢
      exact hvalue

end JsonGrammar

/-- A tree of at most `max_depth` levels below its root, printed and parsed, gives an equal tree. -/
theorem Json.parse_dump {F : Type} {lib : DoubleLib F} (hreads : JsonGrammar.ReadsNumbers lib)
    (hkeeps : JsonGrammar.KeepsNumbers lib)
    (strategy : JsonParse) {v : Json F} (h : JsonGrammar.Printable lib (JsonParser.maxDepth + 1) v) :
    ∃ w, Json.parse lib (v.dump lib) strategy = some (w, []) ∧ w.equals lib v = true := by
  obtain ⟨w, hw, heq⟩ : JsonGrammar.PrintsAs lib strategy _ v := h.prints hkeeps
  have hdocument : JsonGrammar.Document lib strategy ([] ++ (v.dump lib ++ [])) w := .mk .nil hw (.garbage .nil)
  rw [List.nil_append, List.append_nil] at hdocument
  exact ⟨w, (Json.parse_ok_iff hreads).2 hdocument, heq⟩

theorem JsonGrammar.keepsNumbers_wholeNumbers : KeepsNumbers Json.wholeNumbers where
  print n _ := by
    obtain ⟨sign, int, htext, hnumber, -⟩ := intText_number n
    exact ⟨sign, int, [], [], by rw [List.append_nil, List.append_nil]; exact htext, hnumber⟩
  strtod_print n _ := by
    obtain ⟨sign, int, htext, -, hvalue⟩ := intText_number n
    exact beq_iff_eq.2 ((congrArg JsonParser.atoi htext).trans hvalue)
  strtod_int _ _ _ _ _ := beq_self_eq_true _
  symm _ _ h := beq_iff_eq.2 (beq_iff_eq.1 h).symm
  trans _ _ _ h h' := beq_iff_eq.2 ((beq_iff_eq.1 h).trans (beq_iff_eq.1 h'))

theorem Json.parse_dump_user : ∃ w, Json.parse wholeNumbers
    ((Json.object [(ascii "ids", .array [.int 7, .double 12345678901]),
    (ascii "user", .string (ascii "a\"b"))]).dump wholeNumbers)
      .comments = some (w, []) ∧
    w.equals wholeNumbers (.object [(ascii "ids", .array [.int 7, .double 12345678901]),
      (ascii "user", .string (ascii "a\"b"))]) =
      true := by
  refine parse_dump readsNumbers_wholeNumbers JsonGrammar.keepsNumbers_wholeNumbers .comments
    (.object (by decide) fun e he => ?_)
  rcases List.mem_pair.1 he with rfl | rfl
  · refine .array fun v hv => ?_
    rcases List.mem_pair.1 hv with rfl | rfl
    · exact .int (by decide) (by decide)
    · exact .double rfl
  · exact .string

end FortiRdp.Util
