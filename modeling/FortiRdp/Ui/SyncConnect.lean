/-
The connection (`SyncConnect`): the portal is opened, the user logs in, and the pages of the portal are
asked for. The dialogs answer as parameters; the messages that are shown are recorded.
-/
import FortiRdp.Fw.PortalInfo
import FortiRdp.Fw.LoginOutcome
import FortiRdp.Ui.UserCrt

namespace FortiRdp.Ui

open Util Net Http Fw

/-- The answers of the user: to a certificate that is not valid, to the request for credentials of each login, to the
requests for a code in it, and to the dialog of SAML. -/
structure User where
  confirmCrt : Option Crt → UInt32 → Bool
  askCredential : Nat → Option (Bytes × Bytes)
  askCode : Nat → Nat → Bytes → Option Bytes
  askSamlauth : Url → Bytes → Cookies → Bool × Cookies

/-- What the procedure works on, and the messages that it has shown. -/
structure Connect where
  portalClient : FirewallClient
  shown : List Bytes

abbrev ConnectM := EStateM Exn Connect

namespace SyncConnect

/-- `showErrorMessageDialog`. -/
def showErrorMessageDialog (message : Bytes) : ConnectM Unit := modify fun s => { s with shown := s.shown ++ [message] }

def onPortalClient {α : Type} (x : FwM α) : ConnectM α :=
  Run.zoom Connect.portalClient (fun portalClient s => { s with portalClient }) x

/-- The connection with the portal: whether it is open. -/
def openPortal (p : Portal) (user : User) : ConnectM Bool := do
  let rc ← onPortalClient (FirewallClient.openPortal p user.confirmCrt)
  if rc = .errNone then pure true
  else do
    if rc ≠ .certUntrusted then showErrorMessageDialog (ascii "Connection error")
    pure false

/-- A login with a name and a password, the `n`-th one; it is repeated when it was denied. -/
def loginRound (p : Portal) (user : User) (fuel n : Nat) : ConnectM (Nat ⊕ Unit) := do
  let rc ← onPortalClient (FirewallClient.loginBasic p (user.askCredential n) (user.askCode n) fuel)
  if rc ≠ .errNone ∧ rc ≠ .loginCancelled then showErrorMessageDialog (ascii "Login error")
  pure (if rc = .accessDenied then .inl (n + 1) else .inr ())

/-- The authentication procedure. -/
def login (p : Portal) (user : User) (fuel : Nat) : AuthMethod → ConnectM Unit
  | .basic | .default => Run.iterate .exhausted (loginRound p user fuel) fuel 0
  | .certificate => pure ()
  | .saml => do
    let rc ← onPortalClient (FirewallClient.loginSaml p user.askSamlauth)
    if rc ≠ .errNone then showErrorMessageDialog (ascii "Login error")

variable {F : Type} (lib : DoubleLib F)

/-- The pages that are asked for behind the login. -/
def readPages (p : Portal) : ConnectM Unit := do
  let info ← onPortalClient (FirewallClient.getPortalInfo lib p ⟨[], [], []⟩)
  if info.1 then
    let config ← onPortalClient (FirewallClient.getConfig p)
    if config.isNone then showErrorMessageDialog (ascii "Open tunnel error")
  else showErrorMessageDialog (ascii "Open tunnel error")

/-- What is done with a portal that is open. -/
def authenticate (p : Portal) (user : User) (authMethod : AuthMethod) (fuel : Nat) : ConnectM Unit := do
  login p user fuel authMethod
  if ← onPortalClient FirewallClient.isAuthenticated then readPages lib p

/-- The outcome: the client is connected and authenticated. -/
def isConnected : ConnectM Bool := do
  if (← get).portalClient.https.conn.isSome then onPortalClient FirewallClient.isAuthenticated else pure false

/-- `procedure`. The fuel bounds the logins, and the rounds of each of them. -/
def procedure (p : Portal) (user : User) (authMethod : AuthMethod) (fuel : Nat) : ConnectM Bool := do
  if ← openPortal p user then
    authenticate lib p user authMethod fuel
    isConnected
  else pure false

end SyncConnect

/-! ## What is sent, and to whom -/

/-- The digest of a certificate that was accepted: it is valid, or the user has confirmed it. -/
def Accepted (p : Portal) (user : User) (D : Bytes) : Prop :=
  ∃ crt crtCheck, p.accepts user.confirmCrt crt crtCheck = true ∧ p.crtDigest crt = D

/-- The client is pinned to an accepted certificate. -/
def Trusting (p : Portal) (user : User) (w₀ : List Written) (s : FirewallClient) : Prop :=
  ∃ D, Accepted p user D ∧ PinnedTo p D w₀ s

/-- Nothing has been sent, or the client is pinned to an accepted certificate. -/
def Guarded (p : Portal) (user : User) (w₀ : List Written) (s : FirewallClient) : Prop :=
  s.https.written = w₀ ∨ Trusting p user w₀ s

section Sent

variable {p : Portal} {user : User} {w₀ : List Written}

theorem kept_trusting (p : Portal) (user : User) (w₀ : List Written) : Kept p (Trusting p user w₀) where
  env s env := fun ⟨D, hD, h⟩ => ⟨D, hD, (kept_pinnedTo p D w₀).env s env h⟩
  jar s cookieJar := fun ⟨D, hD, h⟩ => ⟨D, hD, (kept_pinnedTo p D w₀).jar s cookieJar h⟩
  request call := by
    rintro s ⟨D, hD, h⟩
    have hkeeps := (kept_pinnedTo p D w₀).request call s h
    cases hrun : FirewallClient.doRequest p call s with
    | ok r t =>
      rw [hrun] at hkeeps
      exact ⟨D, hD, hkeeps⟩
    | error e t =>
      rw [hrun] at hkeeps
      exact ⟨D, hD, hkeeps⟩

/-- Before the certificate is accepted nothing is sent, and from then on only to this certificate. -/
theorem openPortal_trusting (D₀ : Bytes) :
    Run.Spec (fun s => s.peerCrtDigest = D₀ ∧ s.https.written = w₀) (FirewallClient.openPortal p user.confirmCrt)
      (fun err s => Guarded p user w₀ s ∧ (err = .errNone → Trusting p user w₀ s)) (fun _ => Guarded p user w₀) := by
  have hnothing {https : HttpsClient} (h : Logged (fun _ => False) w₀ https) : https.written = w₀ := by
    obtain ⟨new, hnew, hall⟩ := h
    rw [hnew, List.eq_nil_iff_forall_not_mem.2 fun e he => hall e he, List.append_nil]
  have hconnect := spec_attempt (D := D₀) (spec_connect (fun _ => False) w₀)
  refine Run.Spec.bind (hconnect.consequence (fun s h =>
    ⟨h.1, [], by rw [h.2, List.append_nil], fun e he => absurd he List.not_mem_nil⟩)
    (fun _ _ h => h) fun e s h => .inl (hnothing h.2.1.1)) fun r => ?_
  cases r with
  | none => exact Run.Spec.pure _ fun s ⟨_, e, hlogged, _⟩ => ⟨.inl (hnothing hlogged), fun h => by cases h⟩
  | some u =>
    refine Run.Spec.get_bind fun s₀ => ?_
    by_cases haccepts : p.accepts user.confirmCrt s₀.https.getPeerCrt s₀.https.getCrtCheck = true
    swap
    · rw [if_neg haccepts]
      exact Run.Spec.pure _ fun s ⟨⟨_, hlogged, _⟩, _⟩ => ⟨.inl (hnothing hlogged), fun h => by cases h⟩
    rw [if_pos haccepts]
    refine Run.Spec.bind (J := fun _ => Trusting p user w₀) ?_ fun _ => ?_
    · rintro s ⟨⟨-, hlogged, c, hconn, hdone⟩, rfl⟩
      refine ⟨_, ⟨_, _, haccepts, rfl⟩, rfl, ⟨[], ?_, fun e he => absurd he List.not_mem_nil⟩, fun c' hc' => ?_⟩
      · rw [List.append_nil]
        exact hnothing hlogged
      · have hc : c' = c := Option.some.inj (hc'.symm.trans hconn)
        subst hc
        refine ⟨hdone, ?_⟩
        show p.crtDigest c'.peerCrt = p.crtDigest s.https.getPeerCrt
        unfold HttpsClient.getPeerCrt
        rw [hconn]
        rfl
    · exact (kept_trusting p user w₀).openPage.consequence (fun _ h => h)
        (fun _ _ h => ⟨.inr h, fun _ => h⟩) fun _ _ h => .inr h

namespace SyncConnect

theorem keeps_onPortalClient {α : Type} {I : FirewallClient → Prop} {x : FwM α} (h : Run.Keeps I x) :
    Run.Keeps (fun s => I s.portalClient) (onPortalClient x) :=
  Run.Spec.zoom h (fun _ hs => hs) (fun _ _ _ _ ht => ht) fun _ _ _ _ ht => ht

theorem keeps_showError {I : FirewallClient → Prop} (message : Bytes) :
    Run.Keeps (fun s => I s.portalClient) (showErrorMessageDialog message) :=
  Run.Keeps.modify fun _ hs => hs

section Kept

variable {I : FirewallClient → Prop}

theorem keeps_loginRound (h : Kept p I) (fuel n : Nat) : Run.Keeps (fun s => I s.portalClient) (loginRound p user fuel n) :=
  Run.Keeps.bind (keeps_onPortalClient (h.loginBasic _ _ fuel)) fun _ =>
    Run.Keeps.ite (Run.Keeps.bind (keeps_showError _) fun _ => Run.Keeps.pure _) (Run.Keeps.pure _)

theorem keeps_login (h : Kept p I) (fuel : Nat) (authMethod : AuthMethod) :
    Run.Keeps (fun s => I s.portalClient) (login p user fuel authMethod) := by
  cases authMethod with
  | basic | default => exact Run.Keeps.iterate (keeps_loginRound h fuel) fuel 0
  | certificate => exact Run.Keeps.pure _
  | saml =>
    exact Run.Keeps.bind (keeps_onPortalClient (h.toIndifferent.loginSaml _)) fun _ =>
      Run.Keeps.ite (keeps_showError _) (Run.Keeps.pure _)

theorem keeps_readPages {F : Type} (lib : DoubleLib F) (h : Kept p I) :
    Run.Keeps (fun s => I s.portalClient) (readPages lib p) := by
  have hconfig : Run.Keeps I (FirewallClient.getConfig p) := Run.Keeps.bind (h.getPage _ _) fun _ => Run.Keeps.pure _
  exact Run.Keeps.bind (keeps_onPortalClient (h.getPortalInfo lib _)) fun _ =>
    Run.Keeps.ite (Run.Keeps.bind (keeps_onPortalClient hconfig) fun _ =>
      Run.Keeps.ite (keeps_showError _) (Run.Keeps.pure _))
      (keeps_showError _)

theorem keeps_authenticate {F : Type} (lib : DoubleLib F) (h : Kept p I) (authMethod : AuthMethod) (fuel : Nat) :
    Run.Keeps (fun s => I s.portalClient) (authenticate lib p user authMethod fuel) :=
  Run.Keeps.bind (keeps_login h fuel authMethod) fun _ =>
      Run.Keeps.bind (keeps_onPortalClient h.toIndifferent.isAuthenticated) fun _ =>
    Run.Keeps.ite (keeps_readPages lib h) (Run.Keeps.pure _)

end Kept

theorem spec_openPortal (D₀ : Bytes) :
    Run.Spec (fun s => s.portalClient.peerCrtDigest = D₀ ∧ s.portalClient.https.written = w₀) (openPortal p user)
      (fun b s => Guarded p user w₀ s.portalClient ∧ (b = true → Trusting p user w₀ s.portalClient))
      (fun _ s => Guarded p user w₀ s.portalClient) := by
  refine Run.Spec.bind (J := fun err s =>
    Guarded p user w₀ s.portalClient ∧ (err = .errNone → Trusting p user w₀ s.portalClient))
    (Run.Spec.zoom (openPortal_trusting D₀) (fun _ hs => hs) (fun _ _ _ _ ht => ht) fun _ _ _ _ ht => ht) fun rc => ?_
  by_cases hrc : rc = .errNone
  · rw [if_pos hrc]
    exact Run.Spec.pure _ fun s hs => ⟨hs.1, fun _ => hs.2 hrc⟩
  · rw [if_neg hrc]
    by_cases hshown : rc ≠ .certUntrusted
    · rw [if_pos hshown]
      have hshow := keeps_showError (I := Guarded p user w₀)
      exact Run.Spec.bind ((hshow _).consequence (fun _ hs => hs.1) (fun _ _ hs => hs) fun _ _ hs => hs)
        fun _ => Run.Spec.pure _ fun s hs => ⟨hs, fun h => by cases h⟩
    · rw [if_neg hshown]
      exact Run.Spec.pure _ fun s hs => ⟨hs.1, fun h => by cases h⟩

/-- A client that is found connected and authenticated is so. -/
theorem spec_isConnected {I : FirewallClient → Prop} (h : Indifferent I) :
    Run.Spec (fun s => I s.portalClient) isConnected
      (fun b s => I s.portalClient ∧ (b = true → s.portalClient.https.conn.isSome = true ∧ LoggedIn s.portalClient))
      (fun _ s => I s.portalClient) := by
  refine Run.Spec.get_bind fun s₀ => ?_
  by_cases hconn : s₀.portalClient.https.conn.isSome = true
  swap
  · rw [if_neg hconn]
    exact Run.Spec.pure _ fun s hs => ⟨hs.1, fun h => by cases h⟩
  rw [if_pos hconn]
  have hindifferent : Indifferent fun s => I s ∧ s.https.conn.isSome = true :=
    ⟨fun s env hs => ⟨h.env s env hs.1, hs.2⟩, fun s cookieJar hs => ⟨h.jar s cookieJar hs.1, hs.2⟩⟩
  rintro s ⟨hs, rfl⟩
  have hkeeps := hindifferent.isAuthenticated s.portalClient ⟨hs, hconn⟩
  unfold onPortalClient Run.zoom
  cases hrun : FirewallClient.isAuthenticated s.portalClient with
  | ok b t =>
    rw [hrun] at hkeeps
    refine ⟨hkeeps.1, fun hb => ⟨hkeeps.2, ?_⟩⟩
    subst hb
    exact isAuthenticated_loggedIn hrun
  | error e t =>
    rw [hrun] at hkeeps
    exact hkeeps.1

theorem spec_procedure {F : Type} (lib : DoubleLib F) (authMethod : AuthMethod) (fuel : Nat) (D₀ : Bytes) :
    Run.Spec (fun s => s.portalClient.peerCrtDigest = D₀ ∧ s.portalClient.https.written = w₀)
      (procedure lib p user authMethod fuel)
      (fun b s => Guarded p user w₀ s.portalClient ∧ (b = true → Trusting p user w₀ s.portalClient ∧
        s.portalClient.https.conn.isSome = true ∧ LoggedIn s.portalClient))
      (fun _ s => Guarded p user w₀ s.portalClient) := by
  refine Run.Spec.bind (spec_openPortal D₀) fun connected => ?_
  cases connected with
  | false => exact Run.Spec.pure _ fun s hs => ⟨hs.1, fun h => by cases h⟩
  | true =>
    have hkept := kept_trusting p user w₀
    refine Run.Spec.bind ((keeps_authenticate lib hkept authMethod fuel).consequence (fun s hs => hs.2 rfl)
      (fun _ _ hs => hs) fun _ _ hs => .inr hs) fun _ => ?_
    exact (spec_isConnected hkept.toIndifferent).consequence (fun _ hs => hs)
      (fun _ _ hs => ⟨.inr hs.1, fun hb => ⟨hs.1, hs.2 hb⟩⟩) fun _ _ hs => .inr hs

end SyncConnect

end Sent

end FortiRdp.Ui
