/-
The user, group and version that the portal sends as a JSON text (`get_info`).
-/
import FortiRdp.Util.JsonRoundTrip
import FortiRdp.Fw.Sessions

namespace FortiRdp.Fw

open Util JsonGrammar

structure PortalInfo where
  user : Bytes
  group : Bytes
  version : Bytes
  deriving DecidableEq, Repr

variable {F : Type} (lib : DoubleLib F)

/-- What `get_info` makes of the body of the page: the members that are strings, when the body is an object. -/
def readPortalInfo (data : Bytes) (portalInfo : PortalInfo) : Option PortalInfo :=
  (Json.parse lib data .standard).map fun r =>
    let info := r.1
    if info.isObject then
      let user := info.member (ascii "user")
      let group := info.member (ascii "group")
      let version := info.member (ascii "version")
      { user := if user.isString then user.stringValue else []
        group := if group.isString then group.stringValue else []
        version := if version.isString then version.stringValue else [] }
    else portalInfo

/-- `get_info`, with the portal information that it fills in. -/
def FirewallClient.getPortalInfo (p : Portal) (portalInfo : PortalInfo) : FwM (Bool × Option PortalInfo) := do
  match ← getPage p "/remote/portal" (ascii "access") with
  | none => pure (false, some portalInfo)
  | some data => pure (true, readPortalInfo lib data portalInfo)

/-! ## What a body says -/

/-- The string under a key in the members of an object: the last member with the key counts. -/
def lastString (key : Bytes) (members : List (Bytes × Json F)) : Bytes :=
  ((members.reverse.find? fun e => decide (e.1 = key)).map fun e => e.2.stringValue).getD []

/-- The body is the text of an object with these members. -/
inductive ObjectText : Bytes → List (Bytes × Json F) → Prop
  | mk {g t g' : Bytes} {members : List (Bytes × Json F)} (hg : Garbage .standard g)
    (ht : members = [] ∧ Garbage .standard t ∨ Members .standard (Value lib .standard JsonParser.maxDepth) t members)
    (hg' : Trailer .standard g') : ObjectText (g ++ (123 :: (t ++ [125]) ++ g')) members

/-- The information in the members of an object. -/
def PortalInfo.ofMembers (members : List (Bytes × Json F)) : PortalInfo where
  user := lastString (ascii "user") members
  group := lastString (ascii "group") members
  version := lastString (ascii "version") members

/-- What a body makes of the portal information: an object gives all three fields, and anything else leaves them. -/
def Gives (data : Bytes) (portalInfo result : PortalInfo) : Prop :=
  (∃ members, ObjectText lib data members ∧ result = .ofMembers members) ∨
    (∀ members, ¬ ObjectText lib data members) ∧ result = portalInfo

variable {lib}

theorem stringValue_ite (v : Json F) : (if v.isString then v.stringValue else []) = v.stringValue := by
  cases v with
  | string s => rfl
  | _ => rfl

theorem find?_decide {α : Type} {p q : α → Prop} {hp : DecidablePred p} {hq : DecidablePred q} (h : ∀ a, p a ↔ q a)
    (l : List α) :
    (l.find? fun a => decide (p a)) = l.find? fun a => decide (q a) :=
  congrArg (fun f => l.find? f) (funext fun a => decide_eq_decide.2 (h a))

/-- What is found in the object of the members is the last one with the key. -/
theorem member_setAll (key : Bytes) (members : List (Bytes × Json F)) :
    ((Json.object ((Run.SortedMap.empty : Run.SortedMap (Json F) strKey).setAll members).entries).member key).stringValue =
      lastString key members := by
  have hget := Run.SortedMap.get_setAll key members (Run.SortedMap.empty : Run.SortedMap (Json F) strKey)
  rw [Run.SortedMap.get_empty, Option.or_none] at hget
  have hfound : ((((Run.SortedMap.empty : Run.SortedMap (Json F) strKey).setAll members).entries.find?
      fun e => decide (strKey e.1 = strKey key)).map Prod.snd) =
          (members.reverse.find? fun e => decide (e.1 = key)).map Prod.snd :=
    calc
      _ = ((Run.SortedMap.empty : Run.SortedMap (Json F) strKey).setAll members).get key :=
        congrArg (Option.map Prod.snd) (find?_decide (fun _ => Iff.rfl) _)
      _ = _ := hget
      _ = _ := congrArg (Option.map Prod.snd) (find?_decide (fun _ => ⟨Http.strKey_injective, fun h => h ▸ rfl⟩) _)
  unfold Json.member lastString
  dsimp only
  rw [hfound]
  cases members.reverse.find? fun e => decide (e.1 = key) with
  | none => rfl
  | some e => rfl

theorem ObjectText.document {data : Bytes} {members : List (Bytes × Json F)} (h : ObjectText lib data members) :
    Document lib .standard data
      (.object ((Run.SortedMap.empty : Run.SortedMap (Json F) strKey).setAll members).entries) := by
  obtain ⟨hg, ⟨rfl, ht⟩ | ht, hg'⟩ := h
  · exact .mk hg (.emptyObject ht) hg'
  · exact .mk hg (.object ht) hg'

/-- Only the text of an object is read as one. -/
theorem ObjectText.of_document {data : Bytes} {v : Json F} (h : Document lib .standard data v)
    (hobject : v.isObject = true) :
    ∃ members, ObjectText lib data members := by
  obtain ⟨hg, ht, hg'⟩ := h
  cases ht with
  | emptyObject h => exact ⟨[], .mk hg (.inl ⟨rfl, h⟩) hg'⟩
  | object h => exact ⟨_, .mk hg (.inr h) hg'⟩
  | number h =>
    unfold numberIn at hobject
    split at hobject <;> cases hobject
  | _ => cases hobject

theorem readPortalInfo_object (hlib : ReadsNumbers lib) {data : Bytes} {members : List (Bytes × Json F)}
    (h : ObjectText lib data members) (portalInfo : PortalInfo) :
    readPortalInfo lib data portalInfo = some (.ofMembers members) := by
  unfold readPortalInfo PortalInfo.ofMembers
  rw [(Json.parse_ok_iff hlib).2 h.document]
  simp only [Option.map_some, Json.isObject, if_true, stringValue_ite, member_setAll]

theorem readPortalInfo_other (hlib : ReadsNumbers lib) {data : Bytes} (h : ∀ members, ¬ ObjectText lib data members)
    (portalInfo : PortalInfo) : readPortalInfo lib data portalInfo = some portalInfo := by
  unfold readPortalInfo
  by_cases hdocument : ∃ v, Document lib .standard data v
  · obtain ⟨v, hv⟩ := hdocument
    have hother : v.isObject = false := Bool.eq_false_iff.2 fun hobject =>
      (ObjectText.of_document hv hobject).elim fun members hmembers => h members hmembers
    rw [(Json.parse_ok_iff hlib).2 hv]
    simp only [Option.map_some, hother]
    rfl
  · obtain ⟨err, -, herr⟩ := Json.parse_refused hlib fun v hv => hdocument ⟨v, hv⟩
    rw [herr]
    rfl

theorem readPortalInfo_some (hlib : ReadsNumbers lib) (data : Bytes) (portalInfo : PortalInfo) :
    ∃ info, readPortalInfo lib data portalInfo = some info := by
  by_cases h : ∃ members, ObjectText lib data members
  · obtain ⟨members, hmembers⟩ := h
    exact ⟨_, readPortalInfo_object hlib hmembers portalInfo⟩
  · exact ⟨_, readPortalInfo_other hlib (fun members hmembers => h ⟨members, hmembers⟩) portalInfo⟩

theorem readPortalInfo_eq (hlib : ReadsNumbers lib) (data : Bytes) (portalInfo result : PortalInfo) :
    readPortalInfo lib data portalInfo = some result ↔ Gives lib data portalInfo result := by
  by_cases h : ∃ members, ObjectText lib data members
  · obtain ⟨members, hmembers⟩ := h
    rw [readPortalInfo_object hlib hmembers]
    constructor
    · intro heq
      exact .inl ⟨members, hmembers, (Option.some.inj heq).symm⟩
    · rintro (⟨members', hmembers', rfl⟩ | ⟨hnone, -⟩)
      · rw [← readPortalInfo_object hlib hmembers portalInfo, readPortalInfo_object hlib hmembers']
      · exact absurd hmembers (hnone members)
  · have hnone (members) : ¬ ObjectText lib data members := fun hmembers => h ⟨members, hmembers⟩
    rw [readPortalInfo_other hlib hnone]
    constructor
    · intro heq
      exact .inr ⟨hnone, (Option.some.inj heq).symm⟩
    · rintro (⟨members, hmembers, -⟩ | ⟨-, rfl⟩)
      · exact absurd hmembers (hnone members)
      · rfl

/-- `get_info` succeeds exactly when the page comes, and the body of the page alone decides about the information. -/
theorem getPortalInfo_iff (hlib : ReadsNumbers lib) (p : Portal) (portalInfo : PortalInfo) (s s' : FirewallClient)
    (result : Bool × Option PortalInfo) :
    FirewallClient.getPortalInfo lib p portalInfo s = .ok result s' ↔
      FirewallClient.getPage p "/remote/portal" (ascii "access") s = .ok none s' ∧ result = (false, some portalInfo) ∨
      ∃ data info, FirewallClient.getPage p "/remote/portal" (ascii "access") s = .ok (some data) s' ∧
        Gives lib data portalInfo info ∧ result = (true, some info) := by
  constructor
  · intro h
    obtain ⟨page, t, hpage, hrun⟩ := Run.bind_eq_ok h
    cases page with
    | none =>
      cases hrun
      exact .inl ⟨hpage, rfl⟩
    | some data =>
      cases hrun
      obtain ⟨info, hinfo⟩ := readPortalInfo_some hlib data portalInfo
      exact .inr ⟨data, info, hpage, (readPortalInfo_eq hlib data portalInfo info).1 hinfo, by rw [hinfo]⟩
  · rintro (⟨hpage, rfl⟩ | ⟨data, info, hpage, hgives, rfl⟩)
    · exact (Run.bind_ok hpage).trans rfl
    · refine (Run.bind_ok hpage).trans ?_
      rw [← (readPortalInfo_eq hlib data portalInfo info).2 hgives]
      rfl

theorem Kept.getPortalInfo {p : Portal} {I : FirewallClient → Prop} (h : Kept p I) (lib : DoubleLib F)
    (portalInfo : PortalInfo) :
    Run.Keeps I (FirewallClient.getPortalInfo lib p portalInfo) := by
  refine Run.Keeps.bind (h.getPage _ _) fun page => ?_
  cases page with
  | none => exact Run.Keeps.pure _
  | some data => exact Run.Keeps.pure _

/-- A portal that names two users. -/
def twoUsers : String := "HTTP/1.1 200 OK\r\nContent-Length: 23\r\n\r\n\x7b\"user\":\"a\",\"user\":\"b\"\x7d"

/-- A client of this portal, with a cookie of a session. -/
def FirewallClient.ofTwoUsers : FirewallClient :=
  { runSession .plain [.openPortal fun _ _ => false] (.facing [emptyPage, twoUsers]) with
    cookieJar := Http.Cookies.empty.add {
      name := ascii "SVPNCOOKIE", value := ⟨0, ascii "v"⟩, domain := ascii "fw", path := ascii "/",
        expires := Http.expiresUnspecified, secure := true,
      httpOnly := true } }

/-- The body of the page that was given. -/
def pageBody : EStateM.Result Exn FirewallClient (Option Bytes) → Option Bytes
  | .ok page _ => page
  | .error _ _ => none

theorem pageBody_eq {r : EStateM.Result Exn FirewallClient (Option Bytes)} {data : Bytes} (h : pageBody r = some data) :
    ∃ s, r = .ok (some data) s := by
  cases r with
  | error e s => cases h
  | ok page s => exact ⟨s, congrArg (EStateM.Result.ok · s) h⟩

theorem getPortalInfo_iff_twoUsers : ∃ s', FirewallClient.getPortalInfo Json.wholeNumbers .plain ⟨[], [], []⟩ .ofTwoUsers =
    .ok (true, some ⟨ascii "b", [], []⟩) s' := by
  obtain ⟨s', hpage⟩ := pageBody_eq (show pageBody (FirewallClient.getPage .plain "/remote/portal" (ascii "access") .ofTwoUsers) =
    some (ascii "\x7b\"user\":\"a\",\"user\":\"b\"\x7d") by decide +kernel)
  have hread : readPortalInfo Json.wholeNumbers (ascii "\x7b\"user\":\"a\",\"user\":\"b\"\x7d") ⟨[], [], []⟩ =
      some ⟨ascii "b", [], []⟩ := by decide +kernel
  exact ⟨s', (getPortalInfo_iff Json.readsNumbers_wholeNumbers .plain _ _ s' _).2
    (.inr ⟨_, _, hpage, (readPortalInfo_eq Json.readsNumbers_wholeNumbers _ _ _).1 hread, rfl⟩)⟩

end FortiRdp.Fw
