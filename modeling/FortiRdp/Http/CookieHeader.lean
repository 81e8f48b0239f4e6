/-
The `Cookie` header. Its clear text is the list of the cookies that may go with the request, in the order of their
names, whatever keys hide the values and the header itself.
-/
import FortiRdp.Http.RequestText

namespace FortiRdp.Http

open Util Net

/-! ## The cookies that go with a request -/

def normalizedPath (path : Bytes) : Bytes := if trimmed path = [] then ascii "/" else trimmed path

theorem normalizePath_eq (path : Bytes) : normalizePath path = .ok (normalizedPath path) := by
  unfold normalizePath
  rw [trim_eq]
  rfl

namespace Cookie

/-- The cookie goes with a request to the URL at that time, when `hostname` is the host that the URL names. -/
structure EligibleAt (c : Cookie) (url : Url) (hostname : Bytes) (now : Int) : Prop where
  alive : ¬ c.ExpiredAt now
  httpOnly : c.httpOnly = true
  secure : lower url.scheme = ascii "https" → c.secure = true
  domain : c.domain = trimmed (lower hostname)
  path : c.path = normalizedPath url.path ∨ c.path <+: normalizedPath url.path

instance (c : Cookie) (now : Int) : Decidable (c.ExpiredAt now) := inferInstanceAs (Decidable (_ ∧ _))

theorem eligibleAt_iff {c : Cookie} {url : Url} {hostname : Bytes} {now : Int} : c.EligibleAt url hostname now ↔
    ¬ c.ExpiredAt now ∧ c.httpOnly = true ∧ (lower url.scheme = ascii "https" → c.secure = true) ∧
      c.domain = trimmed (lower hostname) ∧ (c.path = normalizedPath url.path ∨ c.path <+: normalizedPath url.path) :=
  ⟨fun h => ⟨h.alive, h.httpOnly, h.secure, h.domain, h.path⟩, fun ⟨h1, h2, h3, h4, h5⟩ => ⟨h1, h2, h3, h4, h5⟩⟩

instance (c : Cookie) (url : Url) (hostname : Bytes) (now : Int) : Decidable (c.EligibleAt url hostname now) :=
  decidable_of_iff _ eligibleAt_iff.symm

/-- How often the clock is read for a cookie. -/
def expiryReads (c : Cookie) : Nat := if c.isSession = false then 1 else 0

/-- The test of `to_header`, at the time that the clock shows. -/
theorem eligible_run (c : Cookie) (url : Url) (hostname : Bytes) (env : Env) : ∃ env',
    c.eligible (iequal url.scheme (ascii "https")) hostname url.path env =
      .ok (decide (c.EligibleAt url hostname (env.now env.reads))) env' ∧
    env'.now = env.now ∧ env'.reads = env.reads + c.expiryReads := by
  obtain ⟨env', hrun, hnow, hreads⟩ := c.isExpired_run env
  refine ⟨env', ?_, hnow, hreads⟩
  have hlink : iequal url.scheme (ascii "https") = true ↔ lower url.scheme = ascii "https" := by
    unfold iequal
    rw [beq_iff_eq, show lower (ascii "https") = ascii "https" by decide]
  have hdomain : c.sameDomain hostname = .ok (c.domain == trimmed (lower hostname)) := by
    unfold sameDomain normalizeDomain
    rw [trim_eq]
    rfl
  have hpath : c.pathMatches url.path =
      .ok (c.path == normalizedPath url.path || (normalizedPath url.path).take c.path.length == c.path) := by
    unfold pathMatches
    rw [normalizePath_eq]
    rfl
  -- behind the test of expiry the tests are pure
  have htests : (decide (c.EligibleAt url hostname (env.now env.reads))) =
      (!decide (c.ExpiredAt (env.now env.reads)) && (c.httpOnly && (!(iequal url.scheme (ascii "https") && !c.secure) &&
        (c.domain == trimmed (lower hostname) &&
          (c.path == normalizedPath url.path || (normalizedPath url.path).take c.path.length == c.path))))) := by
    rw [Bool.eq_iff_iff, decide_eq_true_iff, eligibleAt_iff]
    simp only [Bool.and_eq_true, Bool.not_eq_true', decide_eq_false_iff_not, Bool.or_eq_true, beq_iff_eq,
      Bool.and_eq_false_iff, Bool.not_eq_false', List.prefix_iff_eq_take, ← hlink, Bool.not_eq_true, imp_iff_not_or]
    rw [eq_comm (a := (normalizedPath url.path).take c.path.length)]
  rw [htests]
  unfold eligible
  rw [Run.bind_ok hrun, hdomain, hpath]
  show (if decide (c.ExpiredAt (env.now env.reads)) = true then pure false else _ : EnvM Bool) env' = _
  generalize decide (c.ExpiredAt (env.now env.reads)) = expired
  generalize iequal url.scheme (ascii "https") = link
  generalize (c.domain == trimmed (lower hostname)) = same
  generalize (c.path == normalizedPath url.path || (normalizedPath url.path).take c.path.length == c.path) = fits
  generalize c.httpOnly = httpOnly
  generalize c.secure = secure
  cases expired <;> cases httpOnly <;> cases link <;> cases secure <;> cases same <;> rfl

/-- The clear text of a cookie. -/
def pairText (c : Cookie) : Bytes := c.name ++ ascii "=" ++ c.value.uncrypt

/-- How often the machine is read for a cookie: for its expiry, and for the key of its text. -/
def headerReads (url : Url) (hostname : Bytes) (now : Int) (c : Cookie) : Nat :=
  c.expiryReads + if c.EligibleAt url hostname now then 1 else 0

end Cookie

/-! ## The clear text -/

theorem hides_append {o : ObfString} {s : Bytes} (h : o.Hides s) (t : Bytes) : (o.append t).Hides (s ++ t) := by
  unfold ObfString.Hides ObfString.append at *
  rw [h, List.map_append]

/-- The cookies, each with the time that the clock showed when it was tested. -/
def testedFrom (url : Url) (hostname : Bytes) (now : Nat → Int) : Nat → List Cookie → List (Cookie × Int)
  | _, [] => []
  | reads, c :: cookies =>
    (c, now reads) :: testedFrom url hostname now (reads + c.headerReads url hostname (now reads)) cookies

/-- The cookies that went with the request. -/
def sentOf (url : Url) (hostname : Bytes) (tested : List (Cookie × Int)) : List Cookie :=
  (tested.filter fun t => decide (t.1.EligibleAt url hostname t.2)).map Prod.fst

section Header

variable (url : Url) (hostname : Bytes)

theorem appendTo_run (c : Cookie) {buffer : ObfString} {s : Bytes} (h : buffer.Hides s) (env : Env) :
    ∃ buffer' env', c.appendTo url hostname buffer env = .ok buffer' env' ∧
      buffer'.Hides (s ++ if c.EligibleAt url hostname (env.now env.reads) then c.pairText ++ ascii "; " else []) ∧
      env'.now = env.now ∧ env'.reads = env.reads + c.headerReads url hostname (env.now env.reads) := by
  obtain ⟨env', hrun, hnow, hreads⟩ := c.eligible_run url hostname env
  unfold Cookie.appendTo Cookie.headerReads
  rw [Run.bind_ok hrun]
  by_cases heligible : c.EligibleAt url hostname (env.now env.reads)
  · rw [decide_eq_true heligible, if_pos rfl, if_pos heligible, if_pos heligible]
    have hnew := ObfString.hides_ofBytes (env'.clock env'.reads) (c.name ++ ascii "=")
    refine ⟨_, { env' with reads := env'.reads + 1 }, rfl, ?_, hnow, ?_⟩
    · have htext : (ObfString.ofBytes (env'.clock env'.reads) (c.name ++ ascii "=")).appendObf c.value |>.Hides c.pairText :=
        hides_append hnew _
      rw [← List.append_assoc]
      refine hides_append ?_ _
      unfold ObfString.appendObf at htext ⊢
      rw [ObfString.uncrypt_hides htext]
      exact hides_append h _
    · show env'.reads + 1 = _
      rw [hreads, Nat.add_assoc]
  · rw [decide_eq_false heligible, if_neg Bool.false_ne_true, if_neg heligible, if_neg heligible, List.append_nil]
    exact ⟨_, env', rfl, h, hnow, hreads⟩

theorem foldlM_appendTo : ∀ (cookies : List Cookie) {buffer : ObfString} {s : Bytes}, buffer.Hides s → ∀ env : Env,
    ∃ buffer' env', cookies.foldlM (Cookie.appendTo url hostname) buffer env = .ok buffer' env' ∧
      buffer'.Hides (s ++ (sentOf url hostname (testedFrom url hostname env.now env.reads cookies)).flatMap
        fun c => c.pairText ++ ascii "; ") ∧
      env.reads ≤ env'.reads ∧
      ∀ t ∈ testedFrom url hostname env.now env.reads cookies, ∃ k, env.reads ≤ k ∧ k ≤ env'.reads ∧ t.2 = env.now k
  | [], buffer, s, h, env => by
    refine ⟨buffer, env, rfl, ?_, Nat.le_refl _, fun t ht => absurd ht List.not_mem_nil⟩
    have hnil : s ++ (sentOf url hostname (testedFrom url hostname env.now env.reads [])).flatMap
        (fun c => c.pairText ++ ascii "; ") = s := List.append_nil s
    rwa [hnil]
  | c :: cookies, buffer, s, h, env => by
    obtain ⟨buffer₁, env₁, hround, hides, hnow, hreads⟩ := appendTo_run url hostname c h env
    obtain ⟨buffer', env', hrest, hides', hle, htimes⟩ := foldlM_appendTo cookies hides env₁
    rw [hnow, hreads] at htimes
    refine ⟨buffer', env', ?_, ?_, by omega, ?_⟩
    · rw [List.foldlM_cons, Run.bind_ok hround]
      exact hrest
    · rw [hnow, hreads, List.append_assoc] at hides'
      unfold sentOf at hides' ⊢
      rw [testedFrom, List.filter_cons]
      by_cases heligible : c.EligibleAt url hostname (env.now env.reads)
      · rw [if_pos heligible] at hides'
        rw [if_pos (decide_eq_true heligible)]
        exact hides'
      · rw [if_neg heligible] at hides'
        rw [if_neg (by simpa using heligible)]
        exact hides'
    · intro t ht
      rcases List.mem_cons.1 ht with rfl | ht
      · exact ⟨env.reads, Nat.le_refl _, by omega, rfl⟩
      · obtain ⟨k, hlow, hhigh, htime⟩ := htimes t ht
        exact ⟨k, by omega, hhigh, htime⟩

theorem testedFrom_cookies (now : Nat → Int) : ∀ (cookies : List Cookie) (reads : Nat),
    (testedFrom url hostname now reads cookies).map Prod.fst = cookies
  | [], _ => rfl
  | c :: cookies, reads => by
    rw [testedFrom, List.map_cons, testedFrom_cookies now cookies]

end Header

/-- The text of the header for the cookies. -/
def headerText (cookies : List Cookie) : Bytes := (ascii "; ").intercalate (cookies.map Cookie.pairText)

theorem flatMap_headerText : ∀ {cookies : List Cookie}, cookies ≠ [] →
    cookies.flatMap (fun c => c.pairText ++ ascii "; ") = headerText cookies ++ ascii "; "
  | [], h => absurd rfl h
  | [c], _ => by
    unfold headerText
    rw [List.map_singleton, List.intercalate_singleton, List.flatMap_singleton]
  | c :: d :: cookies, _ => by
    have ih := flatMap_headerText (List.cons_ne_nil d cookies)
    unfold headerText at ih ⊢
    rw [List.flatMap_cons, ih]
    simp only [List.map_cons, List.intercalate_cons_cons, List.append_assoc]

theorem headerText_eq_nil {cookies : List Cookie} : headerText cookies = [] ↔ cookies = [] := by
  constructor
  · intro h
    cases cookies with
    | nil => rfl
    | cons c cookies =>
      have hjoin := flatMap_headerText (List.cons_ne_nil c cookies)
      rw [h, List.flatMap_cons] at hjoin
      have hlength := congrArg List.length hjoin
      have heq : (ascii "=").length = 1 := by decide
      simp only [Cookie.pairText, List.length_append, heq, List.length_nil] at hlength
      omega
  · rintro rfl
    rfl

/-! ## The header -/

section ToHeader

variable {url : Url} {ep : Endpoint}

theorem getHostname_eq (h : Endpoint.init url.authority 80 = .ok ep) : url.getHostname = .ok ep.hostname := by
  unfold Url.getHostname
  by_cases hnil : url.authority = []
  · rw [hnil] at h
    cases h
  · rw [if_neg hnil, h]
    rfl

/-- What `to_header` returns: the list, without the separator behind the last cookie. -/
theorem toHeader_run (cookies : Cookies) (hplain : ∀ c ∈ cookies.toList, 0 ∉ c.name ∧ 0 ∉ c.value.uncrypt)
    (hhost : Endpoint.init url.authority 80 = .ok ep) (env : Env) :
    ∃ o env', cookies.toHeader url env = .ok o env' ∧
      o.uncrypt = headerText (sentOf url ep.hostname (testedFrom url ep.hostname env.now (env.reads + 1) cookies.toList)) ∧
      ∀ t ∈ testedFrom url ep.hostname env.now (env.reads + 1) cookies.toList,
        ∃ k, env.reads ≤ k ∧ k ≤ env'.reads ∧ t.2 = env.now k := by
  have hnew : newObf [] env = .ok (ObfString.ofBytes (env.clock env.reads) []) { env with reads := env.reads + 1 } := rfl
  obtain ⟨buffer, env₁, hfold, hides, hle, htimes⟩ := foldlM_appendTo url ep.hostname cookies.toList
    (ObfString.hides_ofBytes (env.clock env.reads) []) { env with reads := env.reads + 1 }
  rw [List.nil_append] at hides
  have hreads : ∀ env' : Env, env₁.reads ≤ env'.reads →
      ∀ t ∈ testedFrom url ep.hostname env.now (env.reads + 1) cookies.toList,
        ∃ k, env.reads ≤ k ∧ k ≤ env'.reads ∧ t.2 = env.now k := by
    intro env' hmore t ht
    obtain ⟨k, hlow, hhigh, htime⟩ := htimes t ht
    exact ⟨k, Nat.le_of_succ_le hlow, Nat.le_trans hhigh hmore, htime⟩
  have hrun : cookies.toHeader url env =
      (if 0 < buffer.text.length then ofExcept (buffer.substr 0 (some (buffer.text.length - 2))) else newObf [] : EnvM ObfString)
        env₁ := by
    unfold Cookies.toHeader
    rw [Run.bind_ok hnew, Run.except_bind (getHostname_eq hhost)]
    exact Run.bind_ok hfold
  have hmem : ∀ c ∈ sentOf url ep.hostname (testedFrom url ep.hostname env.now (env.reads + 1) cookies.toList),
      c ∈ cookies.toList := by
    intro c hc
    rw [← testedFrom_cookies url ep.hostname env.now cookies.toList (env.reads + 1)]
    exact (List.filter_sublist.map Prod.fst).subset hc
  generalize sentOf url ep.hostname (testedFrom url ep.hostname env.now (env.reads + 1) cookies.toList) = sent at hides hmem ⊢
  rw [hrun]
  by_cases hnone : sent = []
  · subst hnone
    have hempty : ¬ 0 < buffer.text.length := by
      rw [hides]
      exact Nat.lt_irrefl 0
    rw [if_neg hempty]
    refine ⟨_, { env₁ with reads := env₁.reads + 1 }, rfl, ?_, hreads _ (Nat.le_succ _)⟩
    exact ObfString.uncrypt_hides (ObfString.hides_ofBytes _ [])
  · rw [flatMap_headerText hnone] at hides
    have hseparator : (ascii "; ").length = 2 := by decide
    have hlength : buffer.text.length = (headerText sent).length + 2 := by
      rw [hides, List.length_map, List.length_append, hseparator]
    have hcut : substr (headerText sent ++ ascii "; ") 0 (some (buffer.text.length - 2)) = .ok (headerText sent) := by
      unfold substr
      rw [hlength, if_neg (Nat.not_lt_zero _), Nat.add_sub_cancel, List.drop_zero]
      exact congrArg Except.ok List.take_left
    obtain ⟨o, ho, hideso, -⟩ := ObfString.substr_hides hides hcut
    have hnul : 0 ∉ headerText sent := by
      intro h0
      have hall : 0 ∈ sent.flatMap fun c => c.pairText ++ ascii "; " := by
        rw [flatMap_headerText hnone]
        exact List.mem_append_left _ h0
      obtain ⟨c, hc, h0⟩ := List.mem_flatMap.1 hall
      obtain ⟨hname, hvalue⟩ := hplain c (hmem c hc)
      have heq : (0 : UInt8) ∉ ascii "=" ∧ (0 : UInt8) ∉ ascii "; " := by decide
      simp only [Cookie.pairText, List.mem_append, hname, hvalue, heq.1, heq.2, or_self] at h0
    rw [if_pos (by omega), ho]
    rw [cStr_eq hnul] at hideso
    exact ⟨o, env₁, rfl, ObfString.uncrypt_hides hideso, hreads _ (Nat.le_refl _)⟩

/-- The same cookie, with its value hidden under another key perhaps. -/
structure SameClear (c c' : Cookie) : Prop where
  same : c' = { c with value := c'.value }
  clear : c'.value.uncrypt = c.value.uncrypt

theorem SameClear.eligibleAt {c c' : Cookie} (h : SameClear c c') {hostname : Bytes} {now : Int} :
    c'.EligibleAt url hostname now ↔ c.EligibleAt url hostname now := by
  rw [h.same, Cookie.eligibleAt_iff, Cookie.eligibleAt_iff]
  rfl

theorem SameClear.pairText {c c' : Cookie} (h : SameClear c c') : c'.pairText = c.pairText := by
  unfold Cookie.pairText
  rw [h.clear, h.same]

theorem plain_sameClear : ∀ {cookies cookies' : List Cookie}, List.Forall₂ SameClear cookies cookies' →
    (∀ c ∈ cookies, 0 ∉ c.name ∧ 0 ∉ c.value.uncrypt) → ∀ c ∈ cookies', 0 ∉ c.name ∧ 0 ∉ c.value.uncrypt
  | [], [], .nil, _ => fun _ hc => absurd hc List.not_mem_nil
  | c :: cookies, c' :: cookies', .cons h hcookies, hplain => by
    intro d hd
    rcases List.mem_cons.1 hd with rfl | hd
    · rw [h.clear, h.same]
      exact hplain c List.mem_cons_self
    · exact plain_sameClear hcookies (fun x hx => hplain x (List.mem_cons_of_mem _ hx)) d hd

theorem headerText_sameClear (hostname : Bytes) (now : Nat → Int) : ∀ {cookies cookies' : List Cookie} (reads : Nat),
    List.Forall₂ SameClear cookies cookies' →
      (sentOf url hostname (testedFrom url hostname now reads cookies')).map Cookie.pairText =
        (sentOf url hostname (testedFrom url hostname now reads cookies)).map Cookie.pairText
  | [], [], _, .nil => rfl
  | c :: cookies, c' :: cookies', reads, .cons hc hcookies => by
    have hreads : c'.headerReads url hostname (now reads) = c.headerReads url hostname (now reads) := by
      unfold Cookie.headerReads
      rw [if_congr hc.eligibleAt rfl rfl, hc.same]
      rfl
    have ih := headerText_sameClear hostname now (reads + c.headerReads url hostname (now reads)) hcookies
    unfold sentOf at ih ⊢
    rw [testedFrom, testedFrom, hreads, List.filter_cons, List.filter_cons]
    by_cases heligible : c.EligibleAt url hostname (now reads)
    · rw [if_pos (decide_eq_true (hc.eligibleAt.2 heligible)), if_pos (decide_eq_true heligible)]
      simp only [List.map_cons]
      rw [hc.pairText, ih]
    · have hno : ¬ c'.EligibleAt url hostname (now reads) := fun h => heligible (hc.eligibleAt.1 h)
      rw [if_neg (by simpa using hno), if_neg (by simpa using heligible), ih]

/-- The clear text of the header is the list of the cookies that are eligible when they are tested, in the order of
their names. It is empty when there are none, and no key changes it. -/
theorem toHeader_lists (cookies : Cookies) (hplain : ∀ c ∈ cookies.toList, 0 ∉ c.name ∧ 0 ∉ c.value.uncrypt)
    (hhost : Endpoint.init url.authority 80 = .ok ep) (env : Env) :
    ∃ o env' tested, cookies.toHeader url env = .ok o env' ∧ tested.map Prod.fst = cookies.toList ∧
      (∀ t ∈ tested, ∃ k, env.reads ≤ k ∧ k ≤ env'.reads ∧ t.2 = env.now k) ∧
      o.uncrypt = (ascii "; ").intercalate ((sentOf url ep.hostname tested).map Cookie.pairText) ∧
      (o.uncrypt = [] ↔ ∀ t ∈ tested, ¬ t.1.EligibleAt url ep.hostname t.2) ∧
      ∀ (cookies' : Cookies) (clock : Nat → Nat), List.Forall₂ SameClear cookies.toList cookies'.toList →
        ∃ o' env'', cookies'.toHeader url { env with clock } = .ok o' env'' ∧ o'.uncrypt = o.uncrypt := by
  obtain ⟨o, env', hrun, htext, htimes⟩ := toHeader_run cookies hplain hhost env
  refine ⟨o, env', testedFrom url ep.hostname env.now (env.reads + 1) cookies.toList, hrun, testedFrom_cookies _ _ _ _ _, htimes,
    htext, ?_, ?_⟩
  · rw [htext, headerText_eq_nil, sentOf, List.map_eq_nil_iff, List.filter_eq_nil_iff]
    simp only [decide_eq_true_eq]
  · intro cookies' clock hsame
    obtain ⟨o', env'', hrun', htext', -⟩ := toHeader_run cookies' (plain_sameClear hsame hplain) hhost { env with clock }
    refine ⟨o', env'', hrun', ?_⟩
    rw [htext, htext']
    unfold headerText
    rw [headerText_sameClear ep.hostname env.now (env.reads + 1) hsame]

end ToHeader

/-- A page of a portal. -/
def Url.portal : Url where
  scheme := ascii "https"
  authority := ascii "fw:10443"
  path := ascii "/remote/login"
  query := []
  fragment := []

/-- The cookie of a session, as the jar holds it. -/
def Cookie.session : Cookie where
  name := ascii "SVPNCOOKIE"
  value := .ofBytes 2 (ascii "abc")
  domain := ascii "fw"
  path := ascii "/"
  expires := expiresUnspecified
  secure := true
  httpOnly := true

theorem toHeader_lists_session : ∃ o env' tested,
    (Cookies.empty.add .session).toHeader .portal .still = .ok o env' ∧
      tested.map Prod.fst = (Cookies.empty.add .session).toList ∧
      (∀ t ∈ tested, ∃ k, Env.still.reads ≤ k ∧ k ≤ env'.reads ∧ t.2 = Env.still.now k) ∧
      o.uncrypt = (ascii "; ").intercalate ((sentOf .portal (ascii "fw") tested).map Cookie.pairText) ∧
      (o.uncrypt = [] ↔ ∀ t ∈ tested, ¬ t.1.EligibleAt .portal (ascii "fw") t.2) ∧
      ∀ (cookies' : Cookies) (clock : Nat → Nat), List.Forall₂ SameClear (Cookies.empty.add .session).toList cookies'.toList →
        ∃ o' env'', cookies'.toHeader .portal { Env.still with clock } = .ok o' env'' ∧ o'.uncrypt = o.uncrypt := by
  have hhost : Endpoint.init Url.portal.authority 80 = .ok ⟨ascii "fw", 10443⟩ := by decide
  exact toHeader_lists (Cookies.empty.add .session) (by decide) hhost .still

end FortiRdp.Http
