/-
PPP over SSL (`pppossl.c`): the frame written around a PPP packet, and the parser of the bytes
received from the tunnel. The allocator is an oracle: `alloc n` is the answer to call number `n` of
`pbuf_alloc`, and the number of the call identifies the pbuf it returned.
-/
import FortiRdp.Lwip.Pbuf

namespace FortiRdp.Net

open FortiRdp.Lwip

/-- `sizeof(ppp_header)`. -/
def sizeofPppHeader : Nat := 6

/-! ## Output -/

/-- The loop of `pppossl_write` that copies the pbufs of the packet behind the header. -/
def gather (m : Bytes) (offset : Nat) : List Pbuf → Bytes
  | [] => m
  | p :: c => gather (overwrite m offset p.payload) (offset + p.len) c

/-- The frame that `pppossl_write` builds around a packet, `none` when there is no memory. -/
def pppFrame (a : Alloc) (pbuf : List Pbuf) : Option Pbuf :=
  (pbufAlloc a (sizeofPppHeader + totLen pbuf)).map fun frame =>
    let m := store16 frame.payload 0 (htons (totLen pbuf + sizeofPppHeader))
    let m := store16 m 1 0x5050
    let m := store16 m 2 (htons (totLen pbuf))
    { frame with payload := gather m sizeofPppHeader pbuf }

/-- The output side: the time of the last transmission and the context of the output callback. -/
structure Output (σ : Type) where
  lastXmit : Nat
  ctxCb : σ

/-- `pppossl_write`. The callback gets the frame and returns the number of bytes it took. -/
def ppposslWrite {σ : Type} (outputCb : List Pbuf → σ → Nat × σ) (a : Alloc) (sysNow : Nat) (pbuf : List Pbuf)
    (o : Output σ) : Err × Output σ :=
  if pbuf = [] then (.errBuf, o)
  else if 0 < totLen pbuf then
    match pppFrame a pbuf with
    | none => (.errMem, o)
    | some frame =>
      let (lp, ctx) := outputCb [frame] o.ctxCb
      if lp ≠ totLen pbuf + sizeofPppHeader then (.errIf, { lastXmit := 0, ctxCb := ctx })
      else (.errOk, { lastXmit := sysNow, ctxCb := ctx })
  else (.errOk, { o with lastXmit := sysNow })

/-- An output callback that takes every frame. -/
def takeFrame (frame : List Pbuf) (stream : Bytes) : Nat × Bytes := (totLen frame, stream ++ content frame)

/-- `pppossl_write` of one packet after the other; call `i` gets the memory `alloc i`, at the time
`sysNow i`. -/
def writeAll (alloc : Nat → Alloc) (sysNow : Nat → Nat) : Nat → List (List Pbuf) → Output Bytes → Output Bytes
  | _, [], o => o
  | i, pbuf :: packets, o =>
    writeAll alloc sysNow (i + 1) packets (ppposslWrite takeFrame (alloc i) (sysNow i) pbuf o).2

/-! ## Input -/

inductive PppErr where
  | pppErrNone
  | pppErrProtocol
  | pppErrAlloc
  deriving DecidableEq, Repr

inductive PpState where
  | ppHeader
  | ppData
  deriving DecidableEq, Repr

/-- The `in` member of `pppossl_pcb_s`. The header is the memory of its three words, the payload
the number and the chain of the pbuf. -/
structure In where
  state : PpState
  counter : Nat
  header : Bytes
  data : Option (Nat × List Pbuf)
  deriving DecidableEq, Repr

/-- `memset(&pppossl->in, 0, sizeof(pppossl->in))`. -/
def In.zero : In := { state := .ppHeader, counter := 0, header := List.replicate sizeofPppHeader 0, data := none }

/-- What the parser does with a pbuf: it gives it to `ppp_input` or frees it. -/
inductive PbufEvent where
  | pppInput (id : Nat) (c : List Pbuf)
  | pbufFree (id : Nat)
  deriving DecidableEq, Repr

structure Input where
  inp : In
  allocs : Nat
  log : List PbufEvent
  deriving DecidableEq, Repr

/-- The parser after `pppossl_connect`. -/
def Input.zero : Input := { inp := .zero, allocs := 0, log := [] }

/-- The `drop` label. -/
def drop (err : PppErr) (w : Input) : PppErr × Input :=
  match w.inp.data with
  | none => (err, { w with inp := .zero })
  | some (id, _) => (err, { w with inp := .zero, log := w.log ++ [.pbufFree id] })

/-- The two lengths of a complete header, from network to host byte order. -/
def ntohsHeader (header : Bytes) : Bytes :=
  let header := store16 header 0 (htons (load16 header 0))
  store16 header 2 (htons (load16 header 2))

/-- One pass of the loop in state `PP_HEADER`: one byte into the header and, with the last one, the
checks and the buffer of the payload. -/
def headerStep (alloc : Nat → Alloc) (w : Input) (b : UInt8) : Except (PppErr × Input) Input :=
  let header := w.inp.header.set w.inp.counter b
  let counter := (w.inp.counter + 1) % 65536
  if counter = sizeofPppHeader then
    let header := ntohsHeader header
    let w := { w with inp := { w.inp with state := .ppData, counter := 0, header := header } }
    let frameSize := load16 header 2
    if load16 header 0 ≠ frameSize + sizeofPppHeader ∨ load16 header 1 ≠ 0x5050 then .error (drop .pppErrProtocol w)
    else if 16 * 1024 < frameSize then .error (drop .pppErrProtocol w)
    else
      match pbufAlloc (alloc w.allocs) frameSize with
      | none => .error (drop .pppErrAlloc { w with allocs := w.allocs + 1 })
      | some p => .ok { w with inp := { w.inp with data := some (w.allocs, [p]) }, allocs := w.allocs + 1 }
  else .ok { w with inp := { w.inp with counter := counter, header := header } }

/-- The number of bytes that one pass copies: the difference is an `int`, which the comparison with
`l` turns into a `size_t`. -/
def copyLen (i : In) (l : Nat) : Nat :=
  if load16 i.header 2 < i.counter then l else min (load16 i.header 2 - i.counter) l

/-- One pass of the loop in state `PP_DATA`. -/
def dataStep (w : Input) (s : Bytes) : Except (PppErr × Input) (Input × Bytes) :=
  let len := copyLen w.inp s.length
  let chain := (w.inp.data.map (·.2)).getD []
  let (err, chain) := pbufTakeAt chain (s.take (len % 65536)) w.inp.counter
  let w := { w with inp := { w.inp with data := w.inp.data.map fun d => (d.1, chain) } }
  if err = .errMem then .error (drop .pppErrAlloc w)
  else
    let counter := (w.inp.counter + len % 65536) % 65536
    if counter = load16 w.inp.header 2 then
      .ok ({ w with inp := .zero, log := w.log ++ (w.inp.data.map fun d => .pppInput d.1 d.2).toList }, s.drop len)
    else .ok ({ w with inp := { w.inp with counter := counter } }, s.drop len)

/-- One pass of the loop of `pppossl_input` on the bytes that are left. -/
def inputStep (alloc : Nat → Alloc) (w : Input) : Bytes → Except (PppErr × Input) (Input × Bytes)
  | [] => .ok (w, [])
  | b :: s =>
    match w.inp.state with
    | .ppHeader => (headerStep alloc w b).map fun w => (w, s)
    | .ppData => dataStep w (b :: s)

/-- The loop of `pppossl_input`; `none` when it did not end within `fuel` passes. -/
def inputLoop (alloc : Nat → Alloc) : Nat → Input → Bytes → Option (PppErr × Input)
  | _, w, [] => some (.pppErrNone, w)
  | 0, _, _ :: _ => none
  | fuel + 1, w, b :: s =>
    match inputStep alloc w (b :: s) with
    | .error r => some r
    | .ok (w, s) => inputLoop alloc fuel w s

/-- `pppossl_input`. Every pass takes a byte or ends the call, so as many passes as bytes are enough
(`ppposslInput_isSome`). -/
def ppposslInput (alloc : Nat → Alloc) (w : Input) (s : Bytes) : Option (PppErr × Input) :=
  inputLoop alloc s.length w s

/-- One call of `pppossl_input` for each chunk: what the calls returned, and the parser after them. -/
def feed (alloc : Nat → Alloc) : Input → List Bytes → Option (List PppErr × Input)
  | w, [] => some ([], w)
  | w, s :: chunks => do
    let (err, w) ← ppposslInput alloc w s
    let (errs, w) ← feed alloc w chunks
    return (err :: errs, w)

/-- The chains given to `ppp_input`, in order. -/
def passed (w : Input) : List (List Pbuf) :=
  w.log.filterMap fun
    | .pppInput _ c => some c
    | .pbufFree _ => none

end FortiRdp.Net
