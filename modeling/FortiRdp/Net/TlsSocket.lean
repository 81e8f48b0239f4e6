/-
TLS sockets (`TlsSocket`, `TlsContext`): a connection over what the network and the library answer. With
the verification optional, a handshake succeeds for any certificate of the peer and only the result of
the verification tells whether it was accepted.
-/
import FortiRdp.Net.TcpSocket
import FortiRdp.Net.Endpoint

namespace FortiRdp.Net

open Util

def mbedtlsErrNetInvalidContext : Int := -0x0045

def mbedtlsErrSslBadInputData : Int := -0x7100

def mbedtlsErrX509CertVerifyFailed : Int := -0x2700

/-- `MBEDTLS_X509_BADCERT_NOT_TRUSTED`. -/
def badcertNotTrusted : UInt32 := 0x08

/-- A certificate, by its DER encoding. -/
structure Crt where
  raw : Bytes
  deriving DecidableEq, Repr

/-! ## Configuration -/

inductive AuthMode where
  | verifyRequired
  | verifyOptional
  deriving DecidableEq, Repr

structure TlsConfig where
  authmode : AuthMode
  deriving DecidableEq, Repr

/-- The constructor. -/
def TlsConfig.new : TlsConfig := { authmode := .verifyRequired }

/-- `set_ca_crt`. -/
def TlsConfig.setCaCrt (config : TlsConfig) : TlsConfig := { config with authmode := .verifyOptional }

/-! ## Connections -/

/-- A socket that is open, with its TLS context: the certificate of the peer and the result of its
verification, whether the handshake has succeeded, what arrives, and what the layers below do with what
is sent. -/
structure TlsConn where
  peerCrt : Option Crt
  verifyResult : UInt32
  established : Bool
  incoming : List Seg
  outgoing : List SndStep
  deriving DecidableEq, Repr

/-- What one call of `mbedtls_ssl_handshake` answers, and how the wait after it ends. -/
inductive HandshakeStep where
  | done
  | waitIo (rw : Int) (poll : PollAnswer)
  | waitAsync (elapsed : Bool)
  | error (rc : Int)
  deriving DecidableEq, Repr

/-- What an attempt to connect meets: no socket, or an open one with the result of its configuration. -/
inductive Dial where
  | refused (rc : Int)
  | opened (rc : Int) (handshake : List HandshakeStep) (conn : TlsConn)
  deriving DecidableEq, Repr

/-- The handshake loop (`TlsSocket::handshake`): `none` when it succeeds, else the error. A certificate
that is not accepted ends it when the verification is required. -/
def handshake (config : TlsConfig) (verifyResult : UInt32) : List HandshakeStep → Option Int
  | [] => some mbedtlsErrSslTimeout
  | .done :: _ =>
    if config.authmode = .verifyRequired ∧ verifyResult ≠ 0 then some mbedtlsErrX509CertVerifyFailed else none
  | .waitIo _ (.ready _) :: steps => handshake config verifyResult steps
  | .waitIo _ (.failed rc) :: _ => some rc
  | .waitAsync true :: _ => some mbedtlsErrSslTimeout
  | .waitAsync false :: steps => handshake config verifyResult steps
  | .error rc :: _ => some rc

/-- `TlsSocket::connect` and the handshake after it: the socket that is open afterwards, and the error. A
socket stays open when the handshake fails. -/
def tlsConnect (config : TlsConfig) : Dial → Option TlsConn × Option Int
  | .refused rc => (none, some (if rc < 0 then rc else mbedtlsErrSslBadInputData))
  | .opened rc steps conn =>
    let err := if rc < 0 then some rc else handshake config conn.verifyResult steps
    (some { conn with established := err.isNone }, err)

/-- What arrives on a socket: a read without an open one fails. -/
def connIncoming : Option TlsConn → List Seg
  | none => [.error mbedtlsErrSslBadInputData]
  | some conn => conn.incoming

/-- What the layers below do with what is sent. -/
def connOutgoing : Option TlsConn → List SndStep
  | none => [.error mbedtlsErrSslBadInputData]
  | some conn => conn.outgoing

end FortiRdp.Net
