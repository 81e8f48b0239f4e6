/-
Sockets as the program sees them: the status of one `send_data` or `recv_data`, and the answers the
layers below may give.
-/
import FortiRdp.Util.Bytes

namespace FortiRdp.Net

def mbedtlsErrNetSocketFailed : Int := -0x0042

/-! ## Sending -/

inductive SndStatusCode where
  | netctxSndOk
  | netctxSndError
  | netctxSndRetry
  deriving DecidableEq, Repr

structure SndStatus where
  code : SndStatusCode
  rc : Int
  sbytes : Nat
  deriving DecidableEq, Repr

/-- What the layers below answer to one `send_data`: they take some bytes (`room + 1`, or all if
there are fewer), they are busy, or they fail. -/
inductive SndAnswer where
  | taken (room : Nat)
  | retry (rw : Int)
  | error (rc : Int)
  deriving DecidableEq, Repr

/-- `send_data` of `len` bytes. Nothing can be taken of an empty buffer. -/
def sendData (a : SndAnswer) (len : Nat) : SndStatus :=
  match a with
  | .taken room =>
    if len = 0 then { code := .netctxSndError, rc := 0, sbytes := 0 }
    else { code := .netctxSndOk, rc := 0, sbytes := min (room + 1) len }
  | .retry rw => { code := .netctxSndRetry, rc := rw, sbytes := 0 }
  | .error rc => { code := .netctxSndError, rc := rc, sbytes := 0 }

theorem sendData_ok {a : SndAnswer} {len : Nat} (h : (sendData a len).code = .netctxSndOk) :
    0 < (sendData a len).sbytes ∧ (sendData a len).sbytes ≤ len := by
  unfold sendData at *
  split at h
  · split at h
    · cases h
    · rename_i hne
      simp only [if_neg hne]
      omega
  · cases h
  · cases h

/-! ## Receiving -/

inductive RcvStatusCode where
  | netctxRcvOk
  | netctxRcvError
  | netctxRcvRetry
  | netctxRcvEof
  deriving DecidableEq, Repr

structure RcvStatus where
  code : RcvStatusCode
  rc : Int
  rbytes : Nat
  deriving DecidableEq, Repr

/-- What the layers below answer to one `recv_data`: they have data, are not ready, see the end of the
stream, or fail. -/
inductive RcvAnswer where
  | data (d : Bytes)
  | retry (rw : Int)
  | eof
  | error (rc : Int)
  deriving DecidableEq, Repr

/-- `recv_data` into a buffer of `len` bytes, with the bytes stored. No data at all is the end of the
stream. -/
def recvData (a : RcvAnswer) (len : Nat) : RcvStatus × Bytes :=
  match a with
  | .data d =>
    if d.take len = [] then ({ code := .netctxRcvEof, rc := 0, rbytes := 0 }, [])
    else ({ code := .netctxRcvOk, rc := 0, rbytes := (d.take len).length }, d.take len)
  | .retry rw => ({ code := .netctxRcvRetry, rc := rw, rbytes := 0 }, [])
  | .eof => ({ code := .netctxRcvEof, rc := 0, rbytes := 0 }, [])
  | .error rc => ({ code := .netctxRcvError, rc := rc, rbytes := 0 }, [])

end FortiRdp.Net
