/-
The receiving side of the PPP interface. `select` watches the socket, but `PPInterface::recv` reads from
the TLS context above it, once for each report and at most 4096 bytes: the rest of a larger record stays
in the context, where no later report of the socket tells of it.
-/
import FortiRdp.Net.TunnelerStep

namespace FortiRdp.Net

open FortiRdp.Lwip FortiRdp.Util FortiRdp.Run

/-! ## The TLS context -/

def mbedtlsErrSslWantRead : Int := -0x6900

def mbedtlsErrSslWantWrite : Int := -0x6880

def mbedtlsErrSslPeerCloseNotify : Int := -0x7880

def mbedtlsErrSslConnEof : Int := -0x7280

def mbedtlsNetPollRead : Int := 1

def mbedtlsNetPollWrite : Int := 2

/-- A record that has arrived on the socket, by what `mbedtls_ssl_read` makes of it: application data; a
handshake message, with the answer of its handler; an alert that is neither fatal nor a closure; one that
`mbedtls_ssl_read_record` answers with an error, or the end of the connection. -/
inductive SslRecord
  | applicationData (d : Bytes)
  | handshake (ret : Int)
  | alert
  | failed (ret : Int)
  deriving DecidableEq, Repr

/-- `mbedtls_ssl_context`: the application data of the current record from `in_offt` on, none when that is
null, and the records on the socket. -/
structure SslContext where
  inOfft : Bytes
  incoming : List SslRecord
  deriving DecidableEq, Repr

/-- The loop of `mbedtls_ssl_read` up to a record of application data. One empty record is skipped. -/
def sslReadRecord : Bool → List SslRecord → Except Int Bytes × List SslRecord
  | _, [] => (.error mbedtlsErrSslWantRead, [])
  | skip, .applicationData d :: recs => if d = [] ∧ skip = true then sslReadRecord false recs else (.ok d, recs)
  | _, .handshake ret :: recs => if ret = 0 then sslReadRecord true recs else (.error ret, recs)
  | _, .alert :: recs => (.error mbedtlsErrSslWantRead, recs)
  | _, .failed ret :: recs => (.error ret, recs)

/-- `ssl_read_application_data`. -/
def sslReadApplicationData (ssl : SslContext) (len : Nat) : Int × Bytes × SslContext :=
  ((ssl.inOfft.take len).length, ssl.inOfft.take len, { ssl with inOfft := ssl.inOfft.drop len })

/-- `mbedtls_ssl_read` into a buffer of `len` bytes, with the bytes stored. -/
def sslRead (ssl : SslContext) (len : Nat) : Int × Bytes × SslContext :=
  if ssl.inOfft ≠ [] then sslReadApplicationData ssl len
  else
    match sslReadRecord true ssl.incoming with
    | (.ok d, recs) => sslReadApplicationData { inOfft := d, incoming := recs } len
    | (.error ret, recs) => (if ret = mbedtlsErrSslConnEof then 0 else ret, [], { ssl with incoming := recs })

/-- `TlsContext::recv_data`. -/
def tlsRecvData (ssl : SslContext) (len : Nat) : RcvStatus × Bytes × SslContext :=
  let (rc, d, ssl) := sslRead ssl len
  if 0 < rc then ({ code := .netctxRcvOk, rc := 0, rbytes := rc.toNat }, d, ssl)
  else if rc = mbedtlsErrSslPeerCloseNotify ∨ rc = 0 then ({ code := .netctxRcvEof, rc := 0, rbytes := 0 }, d, ssl)
  else if rc = mbedtlsErrSslWantRead then ({ code := .netctxRcvRetry, rc := mbedtlsNetPollRead, rbytes := 0 }, d, ssl)
  else if rc = mbedtlsErrSslWantWrite then ({ code := .netctxRcvRetry, rc := mbedtlsNetPollWrite, rbytes := 0 }, d, ssl)
  else ({ code := .netctxRcvError, rc := rc, rbytes := 0 }, d, ssl)

/-! ## Reading from the tunnel -/

/-- The receiving side of `PPInterface`, with the bytes that were passed to `pppossl_input`. -/
structure PPInput where
  ssl : SslContext
  countersReceived : Nat
  input : Bytes
  deriving DecidableEq, Repr

/-- The size of the buffer in `PPInterface::recv`. -/
def recvSize : Nat := 4096

/-- `PPInterface::recv`; `pppRc` is what `pppossl_input` answers. -/
def PPInput.recv (pp : PPInput) (pppRc : Int) : Bool × PPInput :=
  let (status, d, ssl) := tlsRecvData pp.ssl recvSize
  match status.code with
  | .netctxRcvOk =>
    (pppRc == 0, { ssl := ssl, countersReceived := pp.countersReceived + status.rbytes, input := pp.input ++ d })
  | .netctxRcvRetry => (true, { pp with ssl := ssl })
  | .netctxRcvEof | .netctxRcvError => (false, { pp with ssl := ssl })

/-! ## The tunneler over its TLS context -/

/-- The tunneler and the context that it reads from. `partialRecord`: the socket holds the beginning of a
record that has not arrived completely. -/
structure TlsTunneler where
  tn : Tunneler
  pp : PPInput
  partialRecord : Bool
  deriving DecidableEq, Repr

def TlsTunneler.init (maxClients : Nat) (hostname : Bytes) : TlsTunneler where
  tn := .init maxClients hostname
  pp := { ssl := { inOfft := [], incoming := [] }, countersReceived := 0, input := [] }
  partialRecord := false

/-- What `select` sees of the tunnel: data on the socket, not in the context. -/
def TlsTunneler.readable (t : TlsTunneler) : Bool := !t.pp.ssl.incoming.isEmpty || t.partialRecord

inductive TlsTnAction
  /-- The rest of a record arrives. -/
  | arrive (rec : SslRecord)
  | arrivePart
  | recv (pppRc : Int)
  /-- Any other action of the tunneler. -/
  | step (a : TnAction)

/-- The tunneler reads from the tunnel. -/
def Tunneler.reads (t : Tunneler) : Bool :=
  match t.pc with
  | .recv r => r.tunnelRead && t.tunnelConnected
  | _ => false

/-- `Tunneler::run` with the records of the tunnel. -/
def tlsTunneler : Machine TlsTunneler TlsTnAction
  | t, .arrive rec =>
    some { t with pp.ssl.incoming := t.pp.ssl.incoming ++ [rec], partialRecord := false }
  | t, .arrivePart => some { t with partialRecord := true }
  | t, .recv pppRc =>
    if t.tn.reads then
      let (ok, pp) := t.pp.recv pppRc
      (tunneler t.tn (.recv ok)).map fun tn => { t with tn := tn, pp := pp }
    else (tunneler t.tn (.recv true)).map fun tn => { t with tn := tn }
  | _, .step (.recv _) => none
  | t, .step (.select r) =>
    if r.tunnelRead = true → t.readable = true then (tunneler t.tn (.select r)).map fun tn => { t with tn := tn }
    else none
  | t, .step a => (tunneler t.tn a).map fun tn => { t with tn := tn }

/-! ## What a read leaves behind -/

/-- The application data that the next read of an empty context takes from the socket. -/
def SslContext.nextData (ssl : SslContext) : Bytes :=
  match (sslReadRecord true ssl.incoming).1 with
  | .ok d => d
  | .error _ => []

/-- A read of an empty context keeps what the buffer has no room for. -/
theorem sslRead_rest (ssl : SslContext) (len : Nat) (h : ssl.inOfft = []) :
    (sslRead ssl len).2.2.inOfft = ssl.nextData.drop len := by
  unfold sslRead SslContext.nextData
  rw [if_neg (not_not.2 h)]
  split
  · rename_i d recs hrec
    rw [hrec]
    rfl
  · rename_i ret recs hrec
    rw [hrec]
    exact h.trans List.drop_nil.symm

theorem tlsRecvData_ssl (ssl : SslContext) (len : Nat) : (tlsRecvData ssl len).2.2 = (sslRead ssl len).2.2 := by
  unfold tlsRecvData
  simp only
  split
  · rfl
  split
  · rfl
  split
  · rfl
  split <;> rfl

theorem recv_ssl (pp : PPInput) (pppRc : Int) : (pp.recv pppRc).2.ssl = (sslRead pp.ssl recvSize).2.2 := by
  rw [← tlsRecvData_ssl]
  unfold PPInput.recv
  generalize tlsRecvData pp.ssl recvSize = out
  obtain ⟨status, d, ssl⟩ := out
  simp only
  split <;> rfl

/-- A read that brings data fails when lwIP refuses it. -/
theorem recv_refused {pp : PPInput} {pppRc : Int} (hrc : pppRc ≠ 0) (h : pp.ssl.inOfft = [])
    (hdata : pp.ssl.nextData ≠ []) : (pp.recv pppRc).1 = false := by
  unfold SslContext.nextData at hdata
  split at hdata
  · rename_i d hd
    obtain ⟨ssl, hread⟩ : ∃ ssl, sslRead pp.ssl recvSize = (((d.take recvSize).length : Int), d.take recvSize, ssl) := by
      unfold sslRead
      rw [if_neg (not_not.2 h)]
      generalize sslReadRecord true pp.ssl.incoming = out at hd
      obtain ⟨x, recs⟩ := out
      obtain rfl : x = .ok d := hd
      exact ⟨_, rfl⟩
    have hpos : (0 : Int) < (d.take recvSize).length := by
      have := List.length_pos_of_ne_nil hdata
      rw [List.length_take, recvSize]
      omega
    unfold PPInput.recv tlsRecvData
    simp only [hread, if_pos hpos]
    exact beq_eq_false_iff_ne.2 hrc
  · exact absurd rfl hdata

/-! ## Nothing is left when the tunneler sleeps -/

/-- A tunnel that is lost is not found again. -/
theorem tunnel_lost {t t' : Tunneler} {a : TnAction} (h : tunneler t a = some t')
    (hc : t'.tunnelConnected = true) : t.tunnelConnected = true := by
  cases a with
  | send ok | recv ok =>
    simp only [tunneler] at h
    split at h
    · cases h
      simp only at hc
      split at hc
      · cases hc
      · exact hc
    · cases h
  | localIo rcv a snd =>
    simp only [tunneler] at h
    split at h
    · split at h
      · cases h
        obtain ⟨fwds, heq⟩ := onFwd_eq t _ _
        rw [heq] at hc
        exact hc
      · cases h; exact hc
    · cases h
  | forward sndbuf answers unsent output =>
    simp only [tunneler] at h
    split at h
    · split at h
      · cases h
        obtain ⟨fwds, heq⟩ := onFwd_eq t _ _
        rw [heq] at hc
        exact hc
      · cases h; exact hc
    · cases h
  | accept rcAccept rcQuery newOk rcCon =>
    simp only [tunneler] at h
    split at h
    · cases h
      simp only at hc
      split at hc <;> exact hc
    · cases h
  | lwip i e =>
    simp only [tunneler] at h
    split at h
    · split at h
      · cases h
      · obtain ⟨w', -, rfl⟩ := Option.map_eq_some_iff.1 h
        exact hc
    · cases h
  | terminate => cases h; exact hc
  | switch =>
    obtain ⟨-, rfl⟩ := switch_enabled h
    exact (switch_frame t).2.symm.trans hc
  | released =>
    simp only [tunneler] at h
    split at h
    · cases h; cases hc
    · cases h
  | ppp | abortTimeout | disconnectTimeout | select | selectTimeout | selectError | noSelect | timersDone | purge
  | pppClosed =>
    simp only [tunneler] at h
    split at h
    · cases h; exact hc
    · cases h

/-- A failed read loses the tunnel. -/
theorem recv_loses {t t' : Tunneler} (hreads : t.reads = true) (h : tunneler t (.recv false) = some t') :
    t'.tunnelConnected = false := by
  simp only [tunneler] at h
  split at h
  · rename_i r hpc
    simp only [Tunneler.reads, hpc, Bool.and_eq_true] at hreads
    rw [if_pos ⟨hreads.1, hreads.2, trivial⟩] at h
    cases h
    rfl
  · cases h

theorem reads_connected {t : Tunneler} (h : t.reads = true) : t.tunnelConnected = true := by
  unfold Tunneler.reads at h
  split at h
  · exact (Bool.and_eq_true _ _ ▸ h).2
  · cases h

/-- What `PPInterface::recv` takes of a record fits into its buffer, or lwIP refuses it. -/
def TlsTunneler.fits (t : TlsTunneler) : TlsTnAction → Bool
  | .recv pppRc => !t.tn.reads || pppRc != 0 || decide (t.pp.ssl.nextData.length ≤ recvSize)
  | _ => true

/-- While the tunnel is connected the context holds no application data. -/
def TlsTunneler.Drained (t : TlsTunneler) : Prop := t.tn.tunnelConnected = true → t.pp.ssl.inOfft = []

theorem drained_init (maxClients : Nat) (hostname : Bytes) : (TlsTunneler.init maxClients hostname).Drained :=
  fun _ => rfl

/-- An action that does not read changes the tunneler only. -/
theorem step_tn {t t' : TlsTunneler} {a : TnAction} (h : tlsTunneler t (.step a) = some t') :
    ∃ tn, tunneler t.tn a = some tn ∧ t' = { t with tn := tn } := by
  have of_map : ∀ {o : Option Tunneler}, o.map (fun tn => { t with tn := tn }) = some t' →
      ∃ tn, o = some tn ∧ t' = { t with tn := tn } := fun ho =>
    (Option.map_eq_some_iff.1 ho).imp fun _ => And.imp_right Eq.symm
  cases a with
  | recv ok => cases h
  | select r =>
    simp only [tlsTunneler] at h
    split at h
    · exact of_map h
    · cases h
  | _ => exact of_map h

theorem drained_step (t : TlsTunneler) (a : TlsTnAction) (t' : TlsTunneler) (hi : t.Drained) (hc : t.fits a = true)
    (h : tlsTunneler t a = some t') : t'.Drained := by
  cases a with
  | arrive rec => cases h; exact hi
  | arrivePart => cases h; exact hi
  | recv pppRc =>
    simp only [tlsTunneler] at h
    split at h
    · rename_i hreads
      have hempty := hi (reads_connected hreads)
      obtain ⟨tn, htn, rfl⟩ := Option.map_eq_some_iff.1 h
      intro hconn
      -- a failed read would have lost the tunnel
      have hok : (t.pp.recv pppRc).1 = true := by
        by_contra hfail
        rw [Bool.not_eq_true] at hfail
        rw [hfail] at htn
        rw [recv_loses hreads htn] at hconn
        cases hconn
      -- so the parser took the data, and the condition bounds it
      have hlen : t.pp.ssl.nextData.length ≤ recvSize := by
        simp only [TlsTunneler.fits, hreads, Bool.not_true, Bool.false_or, Bool.or_eq_true, bne_iff_ne,
          decide_eq_true_eq] at hc
        rcases hc with hrc | hlen
        · by_contra hlong
          have hdata : t.pp.ssl.nextData ≠ [] := by
            intro hnil
            rw [hnil] at hlong
            exact hlong (Nat.zero_le _)
          rw [recv_refused hrc hempty hdata] at hok
          cases hok
        · exact hlen
      show (t.pp.recv pppRc).2.ssl.inOfft = []
      rw [recv_ssl, sslRead_rest _ _ hempty]
      exact List.drop_eq_nil_of_le hlen
    · obtain ⟨tn, htn, rfl⟩ := Option.map_eq_some_iff.1 h
      exact fun hconn => hi (tunnel_lost htn hconn)
  | step a =>
    obtain ⟨tn, htn, rfl⟩ := step_tn h
    exact fun hconn => hi (tunnel_lost htn hconn)

/-- `run` is about to call `select`. -/
def TlsTunneler.AtSelect (t : TlsTunneler) : Prop := t.tn.pc = .top ∧ t.tn.tunnelConnected = true

instance (t : TlsTunneler) : Decidable t.AtSelect := inferInstanceAs (Decidable (_ ∧ _))

/-- No decrypted data waits when the tunneler sleeps, as long as every record it takes fits into the buffer
of `recv` or is refused by lwIP. -/
theorem nothing_waits_at_select {maxClients : Nat} {hostname : Bytes} {as : List TlsTnAction} {t : TlsTunneler}
    (hrun : exec tlsTunneler (.init maxClients hostname) as = some t)
    (hfits : Meets tlsTunneler (fun t a => t.fits a = true) (.init maxClients hostname) as) (hsel : t.AtSelect) :
    t.pp.ssl.inOfft = [] :=
  exec_inv_of_meets drained_step (drained_init maxClients hostname) hfits hrun hsel.2

/-- A pass of the loop that reads one record, with no forwarder. -/
def readPass (rec : SslRecord) : List TlsTnAction :=
  [.arrive rec, .step (.select ⟨false, true, false, [], []⟩), .step (.send true), .recv 0,
    .step (.accept 0 .errOk true .errOk), .step (.localIo .eof none []), .step (.forward 0 [] false .errOk),
    .step .timersDone, .step .purge, .step .switch]

theorem nothing_waits_at_select_small :
    ∃ t, exec tlsTunneler (.init 1 []) (readPass (.applicationData [1, 2, 3])) = some t ∧ t.pp.input = [1, 2, 3] ∧
      t.pp.ssl.inOfft = [] := by
  obtain ⟨t, ht, hp⟩ := Option.any_eq_true _ _ |>.1 (by decide +kernel :
    (exec tlsTunneler (.init 1 []) (readPass (.applicationData [1, 2, 3]))).any
      (fun t => decide (t.AtSelect ∧ t.pp.input = [1, 2, 3])) = true)
  obtain ⟨hsel, hinput⟩ := of_decide_eq_true hp
  exact ⟨t, ht, hinput, nothing_waits_at_select ht (by decide +kernel) hsel⟩

/-- After a record of one byte more than the buffer, `select` is called and nothing is on the socket. -/
theorem data_waits_at_select :
    ∃ t, exec tlsTunneler (.init 1 []) (readPass (.applicationData (List.replicate 4097 7))) = some t ∧ t.AtSelect ∧
      t.pp.ssl.inOfft = [7] ∧ t.readable = false := by
  obtain ⟨t, ht, hp⟩ := Option.any_eq_true _ _ |>.1 (by decide +kernel :
    (exec tlsTunneler (.init 1 []) (readPass (.applicationData (List.replicate 4097 7)))).any
      (fun t => decide (t.AtSelect ∧ t.pp.ssl.inOfft = [7] ∧ t.readable = false)) = true)
  exact ⟨t, ht, of_decide_eq_true hp⟩

end FortiRdp.Net
