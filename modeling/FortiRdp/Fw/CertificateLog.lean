/-
What is written to the log about a certificate that is not valid: its description by `open`, and the report of the checks
by the callback that asks the user. mbedTLS makes both texts, and both are given to the logger as the format.
-/
import FortiRdp.Fw.Pinning
import FortiRdp.Util.Logger

namespace FortiRdp.Fw

open Util Net

/-- What mbedTLS leaves in a buffer of 4096 characters. -/
structure InfoText where
  text : Bytes
  noNul : 0 ∉ text
  fits : text.length < 4096

/-- The texts of mbedTLS: the description of a certificate, with the printable characters of its names, and the report of
the checks that failed. -/
structure X509Info where
  crtInfo : Option Crt → InfoText
  verifyInfo : UInt32 → InfoText

/-- The status of the certificate, after the certificate store was asked. -/
def Portal.crtStatus (p : Portal) (peerCrt : Option Crt) (crtCheck : UInt32) : UInt32 :=
  if crtCheck &&& badcertNotTrusted ≠ 0 ∧ peerCrt.any p.isTrusted then crtCheck &&& ~~~badcertNotTrusted else crtCheck

def certificateValid : Bytes := ascii ">> peer X.509 certificate valid"

def certificateError : Bytes := ascii ">> peer X.509 certificate error"

/-- The question of `confirm_certificate`. -/
def invalidCertificateMessage (report : Bytes) : Bytes :=
  ascii "The security certificate is not valid.\n" ++ report ++ ascii "\n" ++
  ascii "Security certificate problems may indicate an attempt to " ++
  ascii "intercept any data including passwords you send to the firewall.\n" ++ ascii "\n" ++ ascii "Do you want to proceed ?"

section

variable {Arg : Type} (lib : Conversions Arg) (x509 : X509Info)

/-- `SyncConnect::confirm_certificate`. -/
def confirmCertificate (dialog : Bytes → Bool) (status : UInt32) (l : Logger) : Except LogFault (Bool × Logger) := do
  let buffer := (x509.verifyInfo status).text
  let l ← l.info lib buffer []
  pure (dialog (invalidCertificateMessage buffer), l)

/-- The part of `open` that decides about the certificate, with its log. -/
def Portal.checkCertificate (p : Portal) (confirmCrt : Option Crt → UInt32 → Logger → Except LogFault (Bool × Logger))
    (peerCrt : Option Crt) (crtCheck : UInt32) (l : Logger) : Except LogFault (Bool × Logger) := do
  let crtStatus := p.crtStatus peerCrt crtCheck
  if crtStatus = 0 then
    let l ← l.info lib certificateValid []
    pure (true, l)
  else
    let l ← l.info lib certificateError []
    let l ← if l.isEnabled .debug then l.debug lib (x509.crtInfo peerCrt).text [] else pure l
    confirmCrt peerCrt crtStatus l

/-- What should be in the log: the messages, the description and the report as they are. -/
def X509Info.exactLog (peerCrt : Option Crt) (crtStatus : UInt32) (l : Logger) : Logger :=
  if crtStatus = 0 then l.logText .info certificateValid
  else ((l.logText .info certificateError).logText .debug (x509.crtInfo peerCrt).text).logText .info
    (x509.verifyInfo crtStatus).text

theorem info_valid (l : Logger) : l.info lib certificateValid [] = .ok (l.logText .info certificateValid) :=
  (l.log_iff .info (by decide) (by decide)).2 fun _ => by decide

theorem info_error (l : Logger) : l.info lib certificateError [] = .ok (l.logText .info certificateError) :=
  (l.log_iff .info (by decide) (by decide)).2 fun _ => by decide

/-- The level is asked for twice. -/
theorem debug_guarded {β : Type} (l : Logger) (text : Bytes) (next : Logger → Except LogFault β) :
    (if l.isEnabled .debug then l.debug lib text [] >>= next else pure l >>= next) = l.debug lib text [] >>= next := by
  unfold Logger.debug Logger.log
  split <;> rfl

theorem InfoText.log_iff (t : InfoText) (l : Logger) (level : LogLevel) :
    l.log lib level t.text [] = .ok (l.logText level t.text) ↔ (l.isEnabled level → t.text ≠ [] ∧ 37 ∉ t.text) := by
  have hfits : t.text.length ≤ intMax := t.fits.le.trans (by decide)
  exact l.log_iff level t.noNul hfits

/-- A call that comes back has asked the user and has written one text. -/
theorem confirmCertificate_record {dialog : Bytes → Bool} {status : UInt32} {l l' : Logger} {answer : Bool}
    (h : confirmCertificate lib x509 dialog status l = .ok (answer, l')) :
    answer = dialog (invalidCertificateMessage (x509.verifyInfo status).text) ∧ ∃ text, l' = l.logText .info text := by
  unfold confirmCertificate Logger.info at h
  dsimp only at h
  cases hlog : l.log lib .info (x509.verifyInfo status).text [] with
  | error e =>
    rw [hlog] at h
    cases h
  | ok m =>
    rw [hlog] at h
    cases h
    exact ⟨rfl, Logger.log_record hlog⟩

theorem confirmCertificate_iff (dialog : Bytes → Bool) (status : UInt32) (l : Logger) :
    confirmCertificate lib x509 dialog status l =
        .ok (dialog (invalidCertificateMessage (x509.verifyInfo status).text), l.logText .info (x509.verifyInfo status).text) ↔
      (l.isEnabled .info → (x509.verifyInfo status).text ≠ [] ∧ 37 ∉ (x509.verifyInfo status).text) := by
  rw [← InfoText.log_iff lib]
  unfold confirmCertificate Logger.info
  dsimp only
  cases l.log lib .info (x509.verifyInfo status).text [] with
  | error e => exact iff_of_false nofun nofun
  | ok l' =>
    constructor
    · intro h
      have hpair := Except.ok.inj h
      exact congrArg Except.ok (congrArg Prod.snd hpair)
    · intro h
      obtain rfl := Except.ok.inj h
      rfl

/-- The description, and behind it the report. -/
theorem debug_confirm_iff (dialog : Bytes → Bool) (peerCrt : Option Crt) (status : UInt32) (l : Logger) :
    (l.debug lib (x509.crtInfo peerCrt).text [] >>= confirmCertificate lib x509 dialog status) =
        .ok (dialog (invalidCertificateMessage (x509.verifyInfo status).text),
          (l.logText .debug (x509.crtInfo peerCrt).text).logText .info (x509.verifyInfo status).text) ↔
      (l.isEnabled .debug → (x509.crtInfo peerCrt).text ≠ [] ∧ 37 ∉ (x509.crtInfo peerCrt).text) ∧
      (l.isEnabled .info → (x509.verifyInfo status).text ≠ [] ∧ 37 ∉ (x509.verifyInfo status).text) := by
  have hdescription := (x509.crtInfo peerCrt).log_iff lib l .debug
  have hreport := confirmCertificate_iff lib x509 dialog status (l.logText .debug (x509.crtInfo peerCrt).text)
  rw [Logger.isEnabled_logText] at hreport
  rw [← hdescription, ← hreport]
  unfold Logger.debug
  constructor
  · intro h
    cases hdebug : l.log lib .debug (x509.crtInfo peerCrt).text [] with
    | error e =>
      rw [hdebug] at h
      cases h
    | ok l' =>
      rw [hdebug] at h
      obtain ⟨text, rfl⟩ := Logger.log_record hdebug
      -- whatever the second call wrote, what was there before it is the first text
      have hfirst : l.logText .debug text = l.logText .debug (x509.crtInfo peerCrt).text := by
        obtain ⟨-, text', h'⟩ := confirmCertificate_record lib x509 h
        exact Logger.logText_cancel (by rw [Logger.level_logText, Logger.level_logText]) h'.symm
      rw [hfirst] at h
      exact ⟨congrArg Except.ok hfirst, h⟩
  · rintro ⟨hdebug, hinfo⟩
    rw [hdebug]
    exact hinfo

/-- The verdict of `open` on the status of the certificate. -/
theorem Portal.accepts_eq (p : Portal) (confirmCrt : Option Crt → UInt32 → Bool) (peerCrt : Option Crt) (crtCheck : UInt32) :
    p.accepts confirmCrt peerCrt crtCheck =
      (p.crtStatus peerCrt crtCheck == 0 || confirmCrt peerCrt (p.crtStatus peerCrt crtCheck)) := rfl

theorem Portal.checkCertificate_eq (p : Portal) (dialog : Bytes → Bool) (peerCrt : Option Crt) (crtCheck : UInt32) (l : Logger) :
    p.checkCertificate lib x509 (fun _ => confirmCertificate lib x509 dialog) peerCrt crtCheck l =
      if p.crtStatus peerCrt crtCheck = 0 then .ok (true, l.logText .info certificateValid)
      else (l.logText .info certificateError).debug lib (x509.crtInfo peerCrt).text [] >>=
        confirmCertificate lib x509 dialog (p.crtStatus peerCrt crtCheck) := by
  unfold Portal.checkCertificate
  dsimp only
  rw [info_valid, info_error]
  exact if_congr Iff.rfl rfl (debug_guarded lib _ _ _)

/-- Logging the description of the certificate of the peer and the report of its checks writes these texts as they are, and
reads no argument, exactly when neither of those that are logged has a percent sign or is empty. -/
theorem Portal.checkCertificate_iff (p : Portal) (dialog : Bytes → Bool) (peerCrt : Option Crt) (crtCheck : UInt32) (l : Logger) :
    p.checkCertificate lib x509 (fun _ => confirmCertificate lib x509 dialog) peerCrt crtCheck l =
        .ok (p.accepts (fun _ status => dialog (invalidCertificateMessage (x509.verifyInfo status).text)) peerCrt crtCheck,
          x509.exactLog peerCrt (p.crtStatus peerCrt crtCheck) l) ↔
      (p.crtStatus peerCrt crtCheck ≠ 0 →
        (l.isEnabled .debug → (x509.crtInfo peerCrt).text ≠ [] ∧ 37 ∉ (x509.crtInfo peerCrt).text) ∧
        (l.isEnabled .info → (x509.verifyInfo (p.crtStatus peerCrt crtCheck)).text ≠ [] ∧
          37 ∉ (x509.verifyInfo (p.crtStatus peerCrt crtCheck)).text)) := by
  rw [p.accepts_eq, p.checkCertificate_eq]
  unfold X509Info.exactLog
  by_cases hvalid : p.crtStatus peerCrt crtCheck = 0
  · rw [if_pos hvalid, if_pos hvalid, hvalid]
    exact iff_of_true rfl fun h => absurd rfl h
  · rw [if_neg hvalid, if_neg hvalid, beq_eq_false_iff_ne.2 hvalid, Bool.false_or, debug_confirm_iff,
      Logger.isEnabled_logText, Logger.isEnabled_logText]
    exact ⟨fun h _ => h, fun h => h hvalid⟩

/-- Whatever is written, the verdict is that of `open` without its log. -/
theorem Portal.checkCertificate_verdict (p : Portal) {dialog : Bytes → Bool} {peerCrt : Option Crt} {crtCheck : UInt32}
    {l l' : Logger} {verdict : Bool}
    (h : p.checkCertificate lib x509 (fun _ => confirmCertificate lib x509 dialog) peerCrt crtCheck l = .ok (verdict, l')) :
    verdict = p.accepts (fun _ status => dialog (invalidCertificateMessage (x509.verifyInfo status).text)) peerCrt crtCheck := by
  rw [p.accepts_eq]
  rw [p.checkCertificate_eq] at h
  by_cases hvalid : p.crtStatus peerCrt crtCheck = 0
  · rw [if_pos hvalid] at h
    rw [hvalid]
    exact (congrArg Prod.fst (Except.ok.inj h)).symm
  · rw [if_neg hvalid] at h
    rw [beq_eq_false_iff_ne.2 hvalid, Bool.false_or]
    cases hdebug : (l.logText .info certificateError).debug lib (x509.crtInfo peerCrt).text [] with
    | error e =>
      rw [hdebug] at h
      cases h
    | ok m =>
      rw [hdebug] at h
      exact (confirmCertificate_record lib x509 h).1

/-- Conversions that take the next argument as it is. -/
def argTexts : Conversions Bytes where
  convert _
    | [] => none
    | arg :: args => some (arg, args)
  missing _ := rfl

/-- Lines of the texts for a certificate with a percent sign in its name, which is not trusted. -/
def hostileName : X509Info where
  crtInfo _ := ⟨ascii "   cert. version     : 3\n   subject name      : CN=%s", by decide, by decide⟩
  verifyInfo _ := ⟨ascii " * The certificate is not correctly signed by the trusted CA\n", by decide, by decide⟩

/-- A percent sign in the name of a certificate. -/
theorem checkCertificate_percent :
    Portal.plain.checkCertificate argTexts hostileName (fun _ => confirmCertificate argTexts hostileName fun _ => false)
      (some ⟨ascii "CN=%s"⟩) badcertNotTrusted ⟨.debug, []⟩ = .error .undefined := by
  rw [Portal.plain.checkCertificate_eq, if_neg (by decide)]
  rfl

end

end FortiRdp.Fw
