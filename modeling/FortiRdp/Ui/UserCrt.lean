/-
The user certificate of the controller (`AsyncController::load_user_crt`): the object is made before the file is
looked at, and the second try for the private key does not use the passcode. The parsers of the TLS library are
parameters.
-/
import FortiRdp.Run.Machine
import FortiRdp.Util.Bytes

namespace FortiRdp.Ui

open Run

def mbedtlsErrPkPasswordRequired : Int := -0x3C00

/-- The parsers of the TLS library: what they return, and what they leave in a context that was initialized before. -/
structure TlsParsers (File Crt Key : Type) where
  x509CrtInit : Crt
  x509CrtParseFile : File → Int × Crt
  pkInit : Key
  pkParseKeyfile : File → Option Bytes → Int × Key

/-- `utl::UserCrt`. -/
structure UserCrt (Crt Key : Type) where
  crt : Crt
  pk : Key
  deriving DecidableEq, Repr

inductive AuthMethod
  | default | basic | certificate | saml
  deriving DecidableEq, Repr

/-- What the controller knows of certificates; `ownCert` is what it has handed to the TLS configuration. -/
structure CrtController (Crt Key : Type) where
  userCrt : Option (UserCrt Crt Key)
  authMethod : AuthMethod
  ownCert : Option (UserCrt Crt Key)
  deriving DecidableEq, Repr

/-- A call of `load_user_crt`: what is found under the name of the file, and the passcode that the user would type,
`none` when the dialog is cancelled. -/
structure CrtAttempt (File : Type) where
  file : Option File
  passcode : Option Bytes

namespace CrtController

variable {File Crt Key : Type}

def init : CrtController Crt Key := { userCrt := none, authMethod := .basic, ownCert := none }

/-- `load_user_crt`. -/
def loadUserCrt (lib : TlsParsers File Crt Key) (s : CrtController Crt Key) (a : CrtAttempt File) :
    Bool × CrtController Crt Key :=
  match s.userCrt with
  | some _ => (true, s)
  | none =>
    let userCrt : UserCrt Crt Key := { crt := lib.x509CrtInit, pk := lib.pkInit }
    match a.file with
    | none => (false, { s with userCrt := some userCrt })
    | some file =>
      let (rc, crt) := lib.x509CrtParseFile file
      let userCrt := { userCrt with crt }
      if rc ≠ 0 then (false, { s with userCrt := some userCrt })
      else
        let (rc, pk) := lib.pkParseKeyfile file none
        -- a passcode that was typed is not handed on
        let (rc, pk) := if rc = mbedtlsErrPkPasswordRequired ∧ a.passcode.isSome then lib.pkParseKeyfile file none else (rc, pk)
        (decide (rc = 0), { s with userCrt := some { userCrt with pk } })

/-- `connect`, as far as it configures TLS. -/
def connect (s : CrtController Crt Key) : CrtController Crt Key :=
  if s.authMethod = .certificate ∧ s.userCrt.isSome then { s with ownCert := s.userCrt } else s

end CrtController

/-- `ConnectDialog::connect`, with a file for the user certificate: it looks for the file itself, and goes on when the
certificate was loaded. -/
def dialogConnect {File Crt Key : Type} (lib : TlsParsers File Crt Key) (s : CrtController Crt Key) (a : CrtAttempt File) :
    CrtController Crt Key :=
  if a.file.isNone then s
  else
    let (loaded, s) := s.loadUserCrt lib a
    if loaded then { s with authMethod := .certificate }.connect else s

section

variable {File Crt Key : Type} (lib : TlsParsers File Crt Key)

/-- A certificate and a private key that are in the file, the key under some passcode or under none. -/
def HoldsFile (u : UserCrt Crt Key) (file : File) : Prop :=
  lib.x509CrtParseFile file = (0, u.crt) ∧ ∃ passcode, lib.pkParseKeyfile file passcode = (0, u.pk)

/-- What is wanted of a call. -/
structure LoadLaw (s : CrtController Crt Key) (a : CrtAttempt File) : Prop where
  holds : (s.loadUserCrt lib a).1 = true → ∃ file u, a.file = some file ∧ (s.loadUserCrt lib a).2.userCrt = some u ∧ HoldsFile lib u file
  encrypted : ∀ file, a.file = some file → (lib.x509CrtParseFile file).1 = 0 →
    (lib.pkParseKeyfile file none).1 = mbedtlsErrPkPasswordRequired → ∀ passcode, a.passcode = some passcode →
      (lib.pkParseKeyfile file (some passcode)).1 = 0 → (s.loadUserCrt lib a).1 = true
  unchanged : (s.loadUserCrt lib a).1 = false → (s.loadUserCrt lib a).2 = s

/-- The calls one after the other. -/
def loadStep : Machine (CrtController Crt Key) (CrtAttempt File) := fun s a => some (s.loadUserCrt lib a).2

variable {lib}

theorem loadUserCrt_some {s : CrtController Crt Key} {u : UserCrt Crt Key} (h : s.userCrt = some u) (a : CrtAttempt File) :
    s.loadUserCrt lib a = (true, s) := by
  unfold CrtController.loadUserCrt
  rw [h]

/-- Whether a passcode is typed makes no difference. -/
theorem loadUserCrt_none {s : CrtController Crt Key} (h : s.userCrt = none) {file : File} (passcode : Option Bytes)
    (hcrt : (lib.x509CrtParseFile file).1 = 0) : s.loadUserCrt lib ⟨some file, passcode⟩ =
      (decide ((lib.pkParseKeyfile file none).1 = 0),
        { s with userCrt := some ⟨(lib.x509CrtParseFile file).2, (lib.pkParseKeyfile file none).2⟩ }) := by
  unfold CrtController.loadUserCrt
  rw [h]
  dsimp only
  rw [if_neg (not_not.2 hcrt), ite_self]

theorem loadUserCrt_unread {s : CrtController Crt Key} (h : s.userCrt = none) {a : CrtAttempt File}
    (hfile : ∀ file, a.file = some file → (lib.x509CrtParseFile file).1 ≠ 0) :
    (s.loadUserCrt lib a).1 = false := by
  obtain ⟨file, passcode⟩ := a
  unfold CrtController.loadUserCrt
  rw [h]
  cases file with
  | none => rfl
  | some file =>
    dsimp only
    rw [if_pos (hfile file rfl)]

/-- Whatever becomes of a call, the controller has a certificate behind it. -/
theorem loadUserCrt_isSome (s : CrtController Crt Key) (a : CrtAttempt File) :
    (s.loadUserCrt lib a).2.userCrt.isSome = true := by
  cases hu : s.userCrt with
  | some u =>
    rw [loadUserCrt_some hu, hu]
    rfl
  | none =>
    unfold CrtController.loadUserCrt
    rw [hu]
    dsimp only
    split
    · rfl
    · split <;> rfl

/-- A call that finds a certificate returns true and does nothing, so it has to be the certificate of the file. -/
theorem loadLaw_some {s : CrtController Crt Key} {u : UserCrt Crt Key} (h : s.userCrt = some u) (a : CrtAttempt File) :
    LoadLaw lib s a ↔ ∃ file, a.file = some file ∧ HoldsFile lib u file := by
  have hload : s.loadUserCrt lib a = (true, s) := loadUserCrt_some h a
  constructor
  · intro hlaw
    have hholds := hlaw.holds
    rw [hload] at hholds
    obtain ⟨file, u', hfile, hu', hin⟩ := hholds rfl
    obtain rfl : u = u' := Option.some.inj (h.symm.trans hu')
    exact ⟨file, hfile, hin⟩
  · rintro ⟨file, hfile, hin⟩
    constructor
    · intro _
      exact ⟨file, u, hfile, by rw [hload]; exact h, hin⟩
    · intros
      rw [hload]
    · intro hfalse
      rw [hload] at hfalse
      cases hfalse

/-- A call that finds no certificate leaves one, so it has to return true. -/
theorem loadLaw_none {s : CrtController Crt Key} (h : s.userCrt = none) (a : CrtAttempt File) :
    LoadLaw lib s a ↔ ∃ file, a.file = some file ∧ (lib.x509CrtParseFile file).1 = 0 ∧ (lib.pkParseKeyfile file none).1 = 0 := by
  constructor
  · intro hlaw
    have htrue : (s.loadUserCrt lib a).1 = true := by
      by_contra hfalse
      have hsame := hlaw.unchanged (Bool.not_eq_true _ ▸ hfalse)
      have hsome : (s.loadUserCrt lib a).2.userCrt.isSome = true := loadUserCrt_isSome s a
      rw [hsame, h] at hsome
      cases hsome
    by_cases hread : ∃ file, a.file = some file ∧ (lib.x509CrtParseFile file).1 = 0
    · obtain ⟨file, hfile, hcrt⟩ := hread
      obtain ⟨_, passcode⟩ := a
      obtain rfl := hfile
      rw [loadUserCrt_none h passcode hcrt] at htrue
      exact ⟨file, rfl, hcrt, of_decide_eq_true htrue⟩
    · have hunread : (s.loadUserCrt lib a).1 = false := loadUserCrt_unread h fun file hfile hcrt => hread ⟨file, hfile, hcrt⟩
      rw [hunread] at htrue
      cases htrue
  · rintro ⟨file, hfile, hcrt, hkey⟩
    obtain ⟨_, passcode⟩ := a
    obtain rfl := hfile
    have hload := loadUserCrt_none h passcode hcrt
    rw [hkey, decide_eq_true rfl] at hload
    constructor
    · intro _
      refine ⟨file, _, rfl, by rw [hload], ?_, none, ?_⟩
      · exact Prod.ext hcrt rfl
      · exact Prod.ext hkey rfl
    · intros
      rw [hload]
    · intro hfalse
      rw [hload] at hfalse
      cases hfalse

variable (lib) in
/-- The file of the first call loads without a passcode, and the files of the later calls have its certificate and key. -/
def LoadsOnce : List (CrtAttempt File) → Prop
  | [] => True
  | a :: later => ∃ file, a.file = some file ∧ (lib.x509CrtParseFile file).1 = 0 ∧ (lib.pkParseKeyfile file none).1 = 0 ∧
    ∀ b ∈ later, ∃ file', b.file = some file' ∧ HoldsFile lib ⟨(lib.x509CrtParseFile file).2, (lib.pkParseKeyfile file none).2⟩ file'

theorem meets_loadLaw_some {s : CrtController Crt Key} {u : UserCrt Crt Key} (h : s.userCrt = some u) :
    ∀ attempts : List (CrtAttempt File), Meets (loadStep lib) (LoadLaw lib) s attempts ↔
      ∀ b ∈ attempts, ∃ file, b.file = some file ∧ HoldsFile lib u file
  | [] => iff_of_true (meets_nil _) nofun
  | a :: attempts => by
    have hstep : loadStep lib s a = some s := by
      unfold loadStep
      rw [loadUserCrt_some h]
    rw [List.forall_mem_cons, ← loadLaw_some h, ← meets_loadLaw_some h attempts]
    constructor
    · intro hmeets
      exact meets_cons hmeets hstep
    · rintro ⟨ha, hrest⟩
      exact meets_step hstep ha hrest

/-- All calls do what is wanted exactly when the first one finds a key without a passcode and the others the same
certificate and key. -/
theorem loadUserCrt_iff (lib : TlsParsers File Crt Key) (attempts : List (CrtAttempt File)) :
    Meets (loadStep lib) (LoadLaw lib) .init attempts ↔ LoadsOnce lib attempts := by
  cases attempts with
  | nil => exact iff_of_true (meets_nil _) trivial
  | cons a later =>
    have hstep : loadStep lib .init a = some (CrtController.loadUserCrt lib .init a).2 := rfl
    constructor
    · intro hmeets
      obtain ⟨ha, hrest⟩ := meets_cons hmeets hstep
      obtain ⟨file, hfile, hcrt, hkey⟩ := (loadLaw_none rfl a).1 ha
      obtain ⟨_, passcode⟩ := a
      obtain rfl := hfile
      rw [loadUserCrt_none rfl passcode hcrt] at hrest
      exact ⟨file, rfl, hcrt, hkey, (meets_loadLaw_some rfl later).1 hrest⟩
    · rintro ⟨file, hfile, hcrt, hkey, hlater⟩
      apply meets_step hstep ((loadLaw_none rfl a).2 ⟨file, hfile, hcrt, hkey⟩)
      obtain ⟨_, passcode⟩ := a
      obtain rfl := hfile
      rw [loadUserCrt_none rfl passcode hcrt]
      exact (meets_loadLaw_some rfl later).2 hlater

/-- The next click behind a failed one hands what the failed call has left to TLS, with any file. -/
theorem dialogConnect_failed {s : CrtController Crt Key} {a b : CrtAttempt File} (ha : a.file.isSome = true) (hb : b.file.isSome = true)
    (hfailed : (s.loadUserCrt lib a).1 = false) :
    (dialogConnect lib (dialogConnect lib s a) b).ownCert = (s.loadUserCrt lib a).2.userCrt := by
  have hpresent : ∀ {c : CrtAttempt File}, c.file.isSome = true → ¬ c.file.isNone = true := by
    intro c hc hnone
    rw [Option.isNone_iff_eq_none.1 hnone] at hc
    cases hc
  obtain ⟨u, hu⟩ : ∃ u, (s.loadUserCrt lib a).2.userCrt = some u := Option.isSome_iff_exists.1 (loadUserCrt_isSome s a)
  have hfirst : dialogConnect lib s a = (s.loadUserCrt lib a).2 := by
    unfold dialogConnect
    rw [if_neg (hpresent ha)]
    dsimp only
    rw [hfailed, if_neg Bool.false_ne_true]
  rw [hfirst]
  unfold dialogConnect
  rw [if_neg (hpresent hb), loadUserCrt_some hu]
  dsimp only
  rw [if_pos rfl]
  unfold CrtController.connect
  dsimp only
  rw [if_pos ⟨rfl, by rw [hu]; rfl⟩]

end

/-! ## An encrypted key -/

/-- A file with a certificate and a key, the key perhaps under a passcode. -/
structure CrtFile where
  crt : Nat
  key : Nat
  passcode : Option Bytes
  deriving DecidableEq, Repr

def mbedtlsErrPkPasswordMismatch : Int := -0x3B80

def crtFileParsers : TlsParsers CrtFile (List Nat) (Option Nat) where
  x509CrtInit := []
  x509CrtParseFile file := (0, [file.crt])
  pkInit := none
  pkParseKeyfile file passcode :=
    match file.passcode, passcode with
    | none, _ => (0, some file.key)
    | some _, none => (mbedtlsErrPkPasswordRequired, none)
    | some right, some typed => if typed = right then (0, some file.key) else (mbedtlsErrPkPasswordMismatch, none)

/-- With the right passcode the first call fails, and the second one returns true without a key. -/
theorem loadUserCrt_encrypted :
    ¬ Meets (loadStep crtFileParsers) (LoadLaw crtFileParsers) .init [⟨some ⟨1, 2, some [49]⟩, some [49]⟩] ∧
      (CrtController.init.loadUserCrt crtFileParsers ⟨some ⟨1, 2, some [49]⟩, some [49]⟩).1 = false ∧
      ((CrtController.init.loadUserCrt crtFileParsers ⟨some ⟨1, 2, some [49]⟩, some [49]⟩).2.loadUserCrt crtFileParsers
        ⟨some ⟨1, 2, some [49]⟩, some [49]⟩) = (true, { userCrt := some ⟨[1], none⟩, authMethod := .basic, ownCert := none }) := by
  refine ⟨?_, by decide, by decide⟩
  intro hmeets
  obtain ⟨hlaw, -⟩ := meets_cons hmeets rfl
  have htrue := hlaw.encrypted _ rfl (by decide) (by decide) [49] rfl (by decide)
  have hfalse : (CrtController.init.loadUserCrt crtFileParsers ⟨some ⟨1, 2, some [49]⟩, some [49]⟩).1 = false := by decide
  rw [hfalse] at htrue
  cases htrue

end FortiRdp.Ui
