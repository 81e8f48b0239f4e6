/-
The error codes of the lwIP stack (`err_t`).
-/

namespace FortiRdp.Lwip

inductive Err where
  | errOk
  | errMem
  | errBuf
  | errTimeout
  | errRte
  | errInprogress
  | errVal
  | errWouldblock
  | errUse
  | errAlready
  | errIsconn
  | errConn
  | errIf
  | errAbrt
  | errRst
  | errClsd
  | errArg
  deriving DecidableEq, Repr

end FortiRdp.Lwip
