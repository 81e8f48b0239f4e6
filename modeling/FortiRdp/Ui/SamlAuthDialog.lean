/-
The decision of the SAML dialog about a certificate error (`SamlAuthDialog`). The browser is a parameter:
the results of its calls, and the certificates it shows, which it encodes as the TLS library does.
-/
import FortiRdp.Fw.Pinning
import FortiRdp.Util.X509Crt

namespace FortiRdp.Ui

open Util Net Http Fw

/-- `AuthSamlInfo`, without the cookie jar and the test for the session cookie. -/
structure AuthSamlInfo where
  serviceProviderUrl : Url
  serviceProviderCrt : Bytes

inductive SamlErr where
  | none
  | webviewError
  | commError
  | certUntrusted
  | httpError
  | accessDenied
  | loginCancelled
  deriving DecidableEq, Repr

/-- The actions that answer a certificate error. -/
inductive CertificateErrorAction where
  | alwaysAllow
  | cancel
  | default
  deriving DecidableEq, Repr

/-- A certificate of the browser: `ToPemEncoding` fails or gives the PEM text. -/
structure Webview2Certificate where
  der : Bytes
  toPemEncoding : Option Bytes
  encodes : ∀ pem ∈ toPemEncoding, pem = pemText der

/-- The arguments of a certificate error, with the results of the calls on them: no value is a failure. -/
structure CertificateErrorArgs where
  getServerCertificate : Option Webview2Certificate
  putAction : CertificateErrorAction → Bool

structure SamlAuthDialog where
  samlAuthInfo : AuthSamlInfo
  /-- The text of `IDC_SAML_STATUS`. -/
  samlStatus : Bytes
  lastSamlError : SamlErr

namespace SamlAuthDialog

/-- `onSourceChanged`; without a sender or arguments there is no source, and `get_Source` may fail. -/
def onSourceChanged (d : SamlAuthDialog) (source : Option (Option Bytes)) : SamlAuthDialog :=
  match source with
  | none => { d with lastSamlError := .webviewError }
  | some none => d
  | some (some uri) => { d with samlStatus := uri }

/-- `onWebViewServerCertificateErrorDetected`, and the action put as the answer. -/
def onWebViewServerCertificateErrorDetected (d : SamlAuthDialog) (args : Option CertificateErrorArgs) :
    SamlAuthDialog × Option CertificateErrorAction :=
  match args with
  | none => ({ d with lastSamlError := .webviewError }, none)
  | some args =>
    let webServerUrl := Url.ofBytes d.samlStatus
    if iequal webServerUrl.authority d.samlAuthInfo.serviceProviderUrl.authority then
      match args.getServerCertificate with
      | none => ({ d with lastSamlError := .webviewError }, none)
      | some certificate =>
        match certificate.toPemEncoding with
        | none => ({ d with lastSamlError := .webviewError }, none)
        | some certificatePem =>
          if iequal certificatePem d.samlAuthInfo.serviceProviderCrt then
            if args.putAction .alwaysAllow then (d, some .alwaysAllow)
            else ({ d with lastSamlError := .webviewError }, none)
          else (d, none)
    else (d, none)

/-- The answer is the override exactly when the calls succeed, the authorities agree and the certificate is a
case twin of the one whose text is recorded. -/
theorem allows_iff (d : SamlAuthDialog) (args : CertificateErrorArgs) {raw : Bytes}
    (hcrt : d.samlAuthInfo.serviceProviderCrt = pemText raw) :
    (d.onWebViewServerCertificateErrorDetected (some args)).2 = some .alwaysAllow ↔
      lower (Url.ofBytes d.samlStatus).authority = lower d.samlAuthInfo.serviceProviderUrl.authority ∧
      ∃ certificate, args.getServerCertificate = some certificate ∧ certificate.toPemEncoding.isSome ∧
        CaseTwins certificate.der raw ∧ args.putAction .alwaysAllow = true := by
  unfold onWebViewServerCertificateErrorDetected
  simp only [iequal, beq_iff_eq]
  split
  · rename_i hauth
    simp only [hauth, true_and]
    cases hget : args.getServerCertificate with
    | none => simp
    | some certificate =>
      simp only [Option.some.injEq, exists_eq_left']
      cases hpem : certificate.toPemEncoding with
      | none => simp
      | some pem =>
        have htwins : lower pem = lower d.samlAuthInfo.serviceProviderCrt ↔ CaseTwins certificate.der raw := by
          rw [certificate.encodes pem hpem, hcrt, ← iequal_pemText_iff, iequal, beq_iff_eq]
        simp only [htwins, Option.isSome_some, true_and]
        by_cases h1 : CaseTwins certificate.der raw <;> by_cases h2 : args.putAction .alwaysAllow = true <;>
          simp [h1, h2]
  · rename_i hauth
    simp [hauth]

end SamlAuthDialog

/-! ## The login -/

/-- The portal with `X509crt_to_pem` as its encoder. -/
def withPem (p : Portal) (calloc : Nat → Bool) : Portal :=
  { p with toPem := fun crt => x509CrtToPem calloc (some crt.raw) }

/-- What `login_saml` gives to the dialog, when it opens one. -/
def samlAuthInfo (p : Portal) (s : FirewallClient) : Option AuthSamlInfo :=
  let query : StringMap := Run.SortedMap.empty.set (ascii "realm") (HttpsClient.encodeUrl s.realm)
  (s.https.getPeerCrt.bind p.toPem).map fun pem => {
    serviceProviderUrl := {
      scheme := trimmed (ascii "https")
      authority := trimmed s.https.hostEp.toBytes
      path := trimmed (ascii "/remote/saml/start")
      query := trimmed (query.join (ascii "&"))
      fragment := trimmed [] }
    serviceProviderCrt := pem }

/-- `login_saml` asks the dialog with these values, or refuses the certificate. -/
theorem loginSaml_eq (p : Portal) (askSamlauth : Url → Bytes → Cookies → Bool × Cookies) (s : FirewallClient) :
    FirewallClient.loginSaml p askSamlauth s = match samlAuthInfo p s with
      | none => .ok .certInvalid s
      | some info =>
        let answer := askSamlauth info.serviceProviderUrl info.serviceProviderCrt s.cookieJar
        .ok (if answer.1 then .errNone else .loginCancelled) { s with cookieJar := answer.2 } := by
  unfold FirewallClient.loginSaml samlAuthInfo
  rw [Run.get_bind]
  cases s.https.getPeerCrt.bind p.toPem with
  | none => rfl
  | some pem =>
    simp only [FirewallClient.makeUrl, HttpsClient.makeUrl, Url.ofParts_eq]
    rfl

/-- The certificate that `login_saml` records is the text of the one the connection shows. -/
theorem samlAuthInfo_crt {p : Portal} {calloc : Nat → Bool} {s : FirewallClient} {info : AuthSamlInfo}
    (h : samlAuthInfo (withPem p calloc) s = some info) :
    ∃ crt, s.https.getPeerCrt = some crt ∧ info.serviceProviderCrt = pemText crt.raw ∧
      info.serviceProviderUrl.authority = trimmed s.https.hostEp.toBytes := by
  simp only [samlAuthInfo, Option.map_eq_some_iff, Option.bind_eq_some_iff] at h
  obtain ⟨pem, ⟨crt, hcrt, hpem⟩, rfl⟩ := h
  simp only [withPem, x509CrtToPem, Option.bind_some, writePem_eq] at hpem
  split at hpem
  · exact ⟨crt, hcrt, (Option.some.inj hpem).symm, rfl⟩
  · cases hpem

theorem samlAuthInfo_of_crt (p : Portal) {s : FirewallClient} {crt : Crt} (h : s.https.getPeerCrt = some crt) :
    ∃ info, samlAuthInfo (withPem p fun _ => true) s = some info ∧ info.serviceProviderCrt = pemText crt.raw ∧
      info.serviceProviderUrl.authority = trimmed s.https.hostEp.toBytes := by
  simp only [samlAuthInfo, h, withPem, x509CrtToPem, Option.bind_some, writePem_eq, pemMemory, Bool.or_true, if_true,
    Option.map_some, Option.some.injEq, exists_eq_left', and_self]

/-- The status of the dialog names the authority of the portal; host names have no case. -/
def AtPortal (s : FirewallClient) (status : Bytes) : Prop :=
  lower (Url.ofBytes status).authority = lower (trimmed s.https.hostEp.toBytes)

/-- Whatever calls fail, the dialog that `login_saml` opens overrides an error about the certificate `der` only
when it is the certificate of the portal, byte for byte, and the authority is the portal's. -/
def OverridesOnlyAccepted (p : Portal) (s : FirewallClient) (status der : Bytes) : Prop :=
  ∀ (calloc : Nat → Bool) (d : SamlAuthDialog) (args : CertificateErrorArgs) (certificate : Webview2Certificate),
    samlAuthInfo (withPem p calloc) s = some d.samlAuthInfo → d.samlStatus = status →
    args.getServerCertificate = some certificate → certificate.der = der →
    (d.onWebViewServerCertificateErrorDetected (some args)).2 = some .alwaysAllow →
    s.https.getPeerCrt = some ⟨der⟩ ∧ AtPortal s status

/-- A case twin of the certificate of the portal is overridden at the portal. -/
theorem twin_allowed (p : Portal) {s : FirewallClient} {status der : Bytes} {crt : Crt}
    (hcrt : s.https.getPeerCrt = some crt) (hat : AtPortal s status) (htwins : CaseTwins der crt.raw)
    (h : OverridesOnlyAccepted p s status der) : der = crt.raw := by
  obtain ⟨info, hinfo, hpem, hauth⟩ := samlAuthInfo_of_crt p hcrt
  have hallow := (SamlAuthDialog.allows_iff ⟨info, status, .none⟩
    ⟨some ⟨der, some (pemText der), by simp⟩, fun _ => true⟩ hpem).2
    ⟨hat.trans (congrArg lower hauth.symm), _, rfl, rfl, htwins, rfl⟩
  obtain ⟨hsame, -⟩ := h _ _ _ _ hinfo rfl rfl rfl hallow
  rw [hcrt] at hsame
  exact (congrArg Crt.raw (Option.some.inj hsame)).symm

/-- The dialog overrides only for the accepted certificate exactly when the other one is no case twin of it, or
the authority is not the portal's. -/
theorem override_only_accepted_iff (p : Portal) (s : FirewallClient) (status der : Bytes) :
    OverridesOnlyAccepted p s status der ↔
      ¬ ∃ crt, s.https.getPeerCrt = some crt ∧ AtPortal s status ∧ der ≠ crt.raw ∧ CaseTwins der crt.raw := by
  constructor
  · rintro h ⟨crt, hcrt, hat, hne, htwins⟩
    exact hne (twin_allowed p hcrt hat htwins h)
  · rintro hno calloc d args certificate hinfo rfl hget rfl hallow
    -- the dialog was given the portal's PEM text and authority by `login_saml`
    obtain ⟨crt, hcrt, hpem, hauth⟩ := samlAuthInfo_crt hinfo
    obtain ⟨hsame, certificate', hget', -, htwins, -⟩ := (SamlAuthDialog.allows_iff d args hpem).1 hallow
    rw [hget] at hget'
    cases hget'
    have hat : AtPortal s d.samlStatus := by rw [AtPortal, hsame, hauth]
    have heq : certificate.der = crt.raw := by
      by_contra hne
      exact hno ⟨crt, hcrt, hat, hne, htwins⟩
    exact ⟨hcrt.trans (congrArg some (congrArg Crt.mk heq.symm)), hat⟩

/-- A self-signed certificate of the name `fw`, with the serial number 1. -/
def portalCrt : Bytes := [
  48, 130, 1, 0, 48, 129, 168, 2, 1, 1, 48, 10, 6, 8, 42, 134, 72, 206, 61, 4, 3, 2, 48, 13, 49, 11,
  48, 9, 6, 3, 85, 4, 3, 12, 2, 102, 119, 48, 30, 23, 13, 50, 53, 48, 49, 48, 49, 48, 48, 48, 48, 48,
  48, 90, 23, 13, 51, 53, 48, 49, 48, 49, 48, 48, 48, 48, 48, 48, 90, 48, 13, 49, 11, 48, 9, 6, 3, 85,
  4, 3, 12, 2, 102, 119, 48, 89, 48, 19, 6, 7, 42, 134, 72, 206, 61, 2, 1, 6, 8, 42, 134, 72, 206, 61,
  3, 1, 7, 3, 66, 0, 4, 107, 23, 209, 242, 225, 44, 66, 71, 248, 188, 230, 229, 99, 164, 64, 242, 119, 3, 125,
  129, 45, 235, 51, 160, 244, 161, 57, 69, 216, 152, 194, 150, 79, 227, 66, 226, 254, 26, 127, 155, 142, 231, 235, 74, 124,
  15, 158, 22, 43, 206, 51, 87, 107, 49, 94, 206, 203, 182, 64, 104, 55, 191, 81, 245, 48, 10, 6, 8, 42, 134, 72,
  206, 61, 4, 3, 2, 3, 71, 0, 48, 68, 2, 32, 107, 23, 209, 242, 225, 44, 66, 71, 248, 188, 230, 229, 99, 164,
  64, 242, 119, 3, 125, 129, 45, 235, 51, 160, 244, 161, 57, 69, 216, 152, 194, 150, 2, 32, 105, 87, 204, 92, 144, 216,
  130, 67, 159, 125, 250, 211, 4, 189, 153, 16, 111, 58, 223, 248, 45, 1, 114, 185, 238, 182, 243, 102, 24, 175, 40, 166]

/-- The same certificate with the serial number 105. -/
def otherCrt : Bytes := portalCrt.set 9 105

/-- A client that has accepted this certificate of the portal. -/
def acceptedClient : FirewallClient :=
  Run.endState (FirewallClient.openPortal Portal.plain (fun _ _ => true)
    (.new (.new { hostname := ascii "fw", port := 10443 } TlsConfig.new (fun _ => answering ⟨portalCrt⟩ 1) .still) []))

/-- The other certificate is overridden at the portal. -/
theorem twin_overridden :
    ¬ OverridesOnlyAccepted Portal.plain acceptedClient (ascii "https://fw:10443/remote/saml/start") otherCrt := by
  have hcrt : acceptedClient.https.getPeerCrt = some ⟨portalCrt⟩ := by decide +kernel
  have hat : AtPortal acceptedClient (ascii "https://fw:10443/remote/saml/start") := by
    unfold AtPortal
    decide +kernel
  have htwins : CaseTwins otherCrt portalCrt := by decide +kernel
  intro h
  exact absurd (twin_allowed _ hcrt hat htwins h) (by decide +kernel)

end FortiRdp.Ui
