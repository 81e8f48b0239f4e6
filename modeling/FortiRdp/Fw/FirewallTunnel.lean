/-
The tunnel (`FirewallTunnel`): it makes a connection of its own, with the configuration of the portal
client, and sends the request that starts the tunnel mode with the session cookies. It looks neither at
the certificate nor at the result of its verification.
-/
import FortiRdp.Fw.Pinning

namespace FortiRdp.Fw

open Util Net Http

/-- `create_tunnel`: the socket of the tunnel. -/
def FirewallClient.createTunnel (s : FirewallClient) (network : Nat → Dial) (env : Env) : HttpsClient :=
  .new s.https.hostEp s.https.tlsConfig network env

namespace FirewallTunnel

/-- `start_tunnel_mode`. -/
def startTunnelMode (cookieJar : Cookies) : HttpsM Unit := do
  let tunnelUrl ← ofExcept ((← get).makeUrl (ascii "/remote/sslvpn-tunnel") [])
  HttpsClient.sendRequest ((Request.new Request.getVerb tunnelUrl).set "Host" (ascii "sslvpn")) cookieJar

/-- `start`, up to the start of the thread. -/
def start (cookieJar : Cookies) : HttpsM Bool := fun s =>
  match (HttpsClient.connect >>= fun _ => startTunnelMode cookieJar) s with
  | .ok _ s' => .ok true s'
  | .error e s' => if e.isRuntimeError then .ok false s' else .error e s'

end FirewallTunnel

/-- The host of the portal is one that a URL can name. -/
def tunnelHost (s : HttpsClient) : Bool :=
  match s.makeUrl (ascii "/remote/sslvpn-tunnel") [] with
  | .ok url => url.getHostname.toBool
  | .error _ => false

/-- The connection that takes something of the tunnel request, if one does. -/
def tunnelPeer (s : FirewallClient) : Dial → Option TlsConn
  | .refused _ => none
  | .opened rc steps conn =>
    if 0 ≤ rc ∧ handshake s.https.tlsConfig conn.verifyResult steps = none ∧ takesData conn.outgoing ∧
      tunnelHost s.https then some conn
    else none

/-- What was sent went to the certificate with that digest, or to one that is itself accepted. -/
def Bound (p : Portal) (confirmCrt : Option Crt → UInt32 → Bool) (D : Bytes) (t : HttpsClient) : Prop :=
  ∀ e ∈ t.written, e.data ≠ [] → p.crtDigest e.peerCrt = D ∨ p.accepts confirmCrt e.peerCrt e.verifyResult = true

theorem endState_start (cookieJar : Cookies) (t : HttpsClient) : Run.endState (FirewallTunnel.start cookieJar t) =
    Run.endState ((HttpsClient.connect >>= fun _ => FirewallTunnel.startTunnelMode cookieJar) t) := by
  unfold FirewallTunnel.start
  cases (HttpsClient.connect >>= fun _ => FirewallTunnel.startTunnelMode cookieJar) t with
  | ok a s' => rfl
  | error e s' =>
    simp only
    split
    · rfl
    · rfl

theorem connect_outcome {t : HttpsClient} (h : t.conn = none) :
    match tlsConnect t.tlsConfig (t.network t.dialed) with
    | (conn, none) => ∃ s', HttpsClient.connect t = .ok () s' ∧ s'.conn = conn ∧ s'.written = t.written ∧
        s'.hostEp = t.hostEp
    | (_, some rc) => ∃ s', HttpsClient.connect t = .error (.mbedError rc) s' ∧ s'.written = t.written := by
  have hconnect : HttpsClient.connect t = HttpsClient.dial { t with
      keepaliveTimer := ⟨t.env.tick t.env.reads + (t.keepaliveTimeout * 1000 % 2 ^ 32).toNat⟩
      env := { t.env with reads := t.env.reads + 1 }
      requestCount := 0 } := rfl
  rw [hconnect]
  unfold HttpsClient.dial
  rw [Run.get_bind]
  simp only [h]
  cases htls : tlsConnect t.tlsConfig (t.network t.dialed) with
  | mk conn err =>
    cases err with
    | none => exact ⟨_, rfl, rfl, rfl, rfl⟩
    | some rc => exact ⟨_, rfl, rfl⟩

/-- A write is recorded with the certificate of the connection, whatever its end. -/
theorem writeBuffer_written (buffer : Bytes) {t : HttpsClient} {conn : TlsConn} (h : t.conn = some conn) :
    Run.Spec (· = t) (HttpsClient.writeBuffer buffer)
      (fun _ s => s.written = t.written ++ [{
        peerCrt := conn.peerCrt, verifyResult := conn.verifyResult, data := (tcpWrite conn.outgoing buffer).2.1 }])
      (fun _ s => s.written = t.written ++ [{
        peerCrt := conn.peerCrt, verifyResult := conn.verifyResult, data := (tcpWrite conn.outgoing buffer).2.1 }]) := by
  have hcrt : t.getPeerCrt = conn.peerCrt := by
    unfold HttpsClient.getPeerCrt
    rw [h]
    rfl
  have hcheck : t.getCrtCheck = conn.verifyResult := by
    unfold HttpsClient.getCrtCheck
    rw [h]
    rfl
  refine Run.Spec.get_bind fun s₀ => ?_
  rintro s ⟨rfl, rfl⟩
  have hout : connOutgoing s.conn = conn.outgoing := by rw [h]; rfl
  rw [← hcrt, ← hcheck, ← hout]
  generalize tcpWrite (connOutgoing s.conn) buffer = r
  obtain ⟨status, sent, outgoing⟩ := r
  simp only
  cases status.code with
  | netctxSndOk => rfl
  | netctxSndError => rfl
  | netctxSndRetry => rfl

/-- A request without a body writes its head, and nothing behind that changes what was written. -/
theorem sendRequest_written {r : Request} {cookies : Cookies} {t : HttpsClient} {conn : TlsConn} {text : Bytes} {env : Env}
    (h : t.conn = some conn) (hbody : r.body = []) (hhead : r.head cookies t.env = .ok text env) :
    (Run.endState (HttpsClient.sendRequest r cookies t)).written = t.written ++ [{
      peerCrt := conn.peerCrt, verifyResult := conn.verifyResult, data := (tcpWrite conn.outgoing text).2.1 }] := by
  generalize hw : t.written ++ [_] = w
  have hwrite := writeBuffer_written text (t := { t with env }) h
  rw [hw] at hwrite
  refine Run.Spec.endState (I := (· = t)) (L := fun s => s.written = w) ?_ rfl
  refine Run.Spec.bind (J := fun _ s => s.written = w) ?_ fun _ => ?_
  · refine Run.Spec.bind (J := fun head s => head = text ∧ s = { t with env }) ?_ fun head => ?_
    · rintro s rfl
      rw [show HttpsClient.onEnv (r.head cookies) s = _ from Run.zoom_ok hhead]
      exact ⟨rfl, rfl⟩
    · rintro s ⟨rfl, rfl⟩
      refine Run.Spec.bind hwrite (fun _ => ?_) _ rfl
      rw [if_neg (not_not.2 hbody)]
      exact Run.Spec.pure _ fun s hs => hs
  · exact Run.Keeps.bind (Run.Keeps.modify fun s hs => hs) fun _ => keeps_startKeepaliveTimer fun _ _ _ hs => hs

/-- The tunnel request goes to the connection that is open, and nothing else is written. -/
theorem startTunnelMode_written (cookieJar : Cookies) {t : HttpsClient} {conn : TlsConn} (h : t.conn = some conn) :
    (tunnelHost t = true → ∃ head, head ≠ [] ∧
      (Run.endState (FirewallTunnel.startTunnelMode cookieJar t)).written = t.written ++
        [{ peerCrt := conn.peerCrt, verifyResult := conn.verifyResult, data := (tcpWrite conn.outgoing head).2.1 }]) ∧
    (tunnelHost t = false → (Run.endState (FirewallTunnel.startTunnelMode cookieJar t)).written = t.written) := by
  obtain ⟨url, hurl⟩ : ∃ url, t.makeUrl (ascii "/remote/sslvpn-tunnel") [] = .ok url := ⟨_, Url.ofParts_eq ..⟩
  have hhost : tunnelHost t = url.getHostname.toBool := by
    unfold tunnelHost
    rw [hurl]
  have hmode : FirewallTunnel.startTunnelMode cookieJar t =
      HttpsClient.sendRequest ((Request.new Request.getVerb url).set "Host" (ascii "sslvpn")) cookieJar t :=
    Run.except_bind hurl _ t
  rw [hmode, hhost]
  have hhead := ((Request.new Request.getVerb url).set "Host" (ascii "sslvpn")).head_outcome cookieJar t.env
  dsimp only [Request.set, Request.new] at hhead
  cases hname : url.getHostname with
  | error e =>
    rw [hname] at hhead
    obtain ⟨env, hrun⟩ := hhead
    refine ⟨fun h => absurd h Bool.false_ne_true, fun _ => ?_⟩
    have hsend : HttpsClient.sendRequest ((Request.new Request.getVerb url).set "Host" (ascii "sslvpn")) cookieJar t = _ :=
      Run.bind_error (Run.bind_error (Run.zoom_error hrun))
    rw [hsend]
    rfl
  | ok hostname =>
    rw [hname] at hhead
    obtain ⟨text, env, hrun, hne⟩ := hhead
    exact ⟨fun _ => ⟨text, hne, sendRequest_written h rfl hrun⟩, fun h => absurd h.symm Bool.false_ne_true⟩

/-- A start writes to the peer of the tunnel, if there is one, and nothing anywhere else. -/
theorem start_written (s : FirewallClient) (network : Nat → Dial) (env : Env) :
    match tunnelPeer s (network 0) with
    | none => ∀ e ∈ (Run.endState (FirewallTunnel.start s.cookieJar (s.createTunnel network env))).written, e.data = []
    | some conn => ∃ data, data ≠ [] ∧
        (Run.endState (FirewallTunnel.start s.cookieJar (s.createTunnel network env))).written =
          [{ peerCrt := conn.peerCrt, verifyResult := conn.verifyResult, data }] := by
  have hconnect := connect_outcome (t := s.createTunnel network env) rfl
  rw [endState_start]
  change match tlsConnect s.https.tlsConfig (network 0) with
    | (conn, none) => _
    | (_, some rc) => _ at hconnect
  have hrefused : ∀ {e t}, HttpsClient.connect (s.createTunnel network env) = .error e t → t.written = [] →
      (Run.endState ((HttpsClient.connect >>= fun _ => FirewallTunnel.startTunnelMode s.cookieJar)
        (s.createTunnel network env))).written = [] := by
    intro e t hrun hwritten
    rw [Run.bind_error hrun]
    exact hwritten
  cases hdial : network 0 with
  | refused rc =>
    rw [hdial] at hconnect
    obtain ⟨t, hrun, hwritten⟩ := hconnect
    show ∀ e ∈ _, _
    rw [hrefused hrun hwritten]
    exact fun e he => nomatch he
  | opened rc steps conn =>
    rw [hdial] at hconnect
    have hpeer : tunnelPeer s (.opened rc steps conn) =
        if 0 ≤ rc ∧ handshake s.https.tlsConfig conn.verifyResult steps = none ∧ takesData conn.outgoing ∧
          tunnelHost s.https then some conn else none := rfl
    unfold tlsConnect at hconnect
    simp only at hconnect
    cases herr : (if rc < 0 then some rc else handshake s.https.tlsConfig conn.verifyResult steps) with
    | some e =>
      rw [herr] at hconnect
      obtain ⟨t, hrun, hwritten⟩ := hconnect
      rw [hpeer, if_neg]
      · show ∀ e ∈ _, _
        rw [hrefused hrun hwritten]
        exact fun e he => nomatch he
      · rintro ⟨hrc, hshake, -⟩
        rw [if_neg (by omega), hshake] at herr
        cases herr
    | none =>
      rw [herr] at hconnect
      obtain ⟨t, hrun, hconn, hwritten, hep⟩ := hconnect
      have hok : 0 ≤ rc ∧ handshake s.https.tlsConfig conn.verifyResult steps = none := by
        split at herr
        · cases herr
        · rename_i hrc
          exact ⟨by omega, herr⟩
      have hhost : tunnelHost t = tunnelHost s.https := by
        unfold tunnelHost HttpsClient.makeUrl
        rw [hep]
        rfl
      obtain ⟨hsent, hnot⟩ := startTunnelMode_written s.cookieJar hconn
      rw [hpeer, Run.bind_ok hrun]
      rw [hwritten] at hsent hnot
      by_cases hname : tunnelHost t = true
      swap
      · rw [if_neg (fun h => hname (hhost ▸ h.2.2.2)), hnot (Bool.not_eq_true _ ▸ hname)]
        exact fun e he => nomatch he
      obtain ⟨head, hne, hsent⟩ := hsent hname
      rw [hsent]
      by_cases htakes : takesData conn.outgoing = true
      · rw [if_pos ⟨hok.1, hok.2, htakes, hhost ▸ hname⟩]
        exact ⟨_, (tcpWrite_sent conn.outgoing hne).2 htakes, rfl⟩
      · rw [if_neg (fun h => htakes h.2.2.1)]
        intro e he
        rw [List.mem_singleton.1 he]
        exact not_not.1 fun h => htakes ((tcpWrite_sent conn.outgoing hne).1 h)

/-- The tunnel is bound to the accepted certificate exactly when its peer, if there is one, shows the
recorded digest or an accepted certificate: the code itself checks nothing. -/
theorem tunnel_bound (p : Portal) (confirmCrt : Option Crt → UInt32 → Bool) (s : FirewallClient) (network : Nat → Dial)
    (env : Env) :
    Bound p confirmCrt s.peerCrtDigest
        (Run.endState (FirewallTunnel.start s.cookieJar (s.createTunnel network env))) ↔
      ∀ conn, tunnelPeer s (network 0) = some conn →
        p.crtDigest conn.peerCrt = s.peerCrtDigest ∨ p.accepts confirmCrt conn.peerCrt conn.verifyResult = true := by
  have hwritten := start_written s network env
  unfold Bound
  cases hpeer : tunnelPeer s (network 0) with
  | none =>
    rw [hpeer] at hwritten
    exact ⟨fun _ => nofun, fun _ e he hdata => absurd (hwritten e he) hdata⟩
  | some conn =>
    rw [hpeer] at hwritten
    obtain ⟨data, hdata, hwritten⟩ := hwritten
    rw [hwritten]
    constructor
    · rintro h conn' hconn'
      obtain rfl := Option.some.inj hconn'
      exact h _ (List.mem_singleton_self _) hdata
    · rintro h e he -
      rw [List.mem_singleton.1 he]
      exact h conn rfl

/-- A client whose portal gives it a session cookie. -/
def FirewallClient.session : FirewallClient :=
  let portal : Dial := .opened 0 [.done] {
    peerCrt := some ⟨[1]⟩
    verifyResult := 0
    established := false
    incoming := keepData (ascii "HTTP/1.1 200 OK\r\nSet-Cookie: SVPNCOOKIE=s; secure; httponly\r\n\r\n") []
    outgoing := [.taken 1000] }
  .new (.new { hostname := ascii "fw", port := 443 } TlsConfig.new.setCaCrt (fun _ => portal) .still) []

/-- The tunnel of a client that meets another certificate, not trusted. -/
def FirewallClient.strangerTunnel (s : FirewallClient) : HttpsClient :=
  Run.endState (FirewallTunnel.start s.cookieJar (s.createTunnel (fun _ => answering ⟨[2]⟩ badcertNotTrusted) .still))

/-- The portal is open, and its tunnel sends the cookie to a certificate that is neither the one of the portal nor
accepted itself. -/
def FirewallClient.strays : EStateM.Result Exn FirewallClient PortalErr → Bool
  | .ok .errNone s => s.strangerTunnel.written.any fun e =>
      e.data != [] && Portal.plain.crtDigest e.peerCrt != s.peerCrtDigest &&
        !Portal.plain.accepts (fun _ _ => false) e.peerCrt e.verifyResult &&
        e.peerCrt == some ⟨[2]⟩ && decide (ascii "Cookie: SVPNCOOKIE=s" <:+: e.data)
  | _ => false

/-- The session cookie goes to a certificate that is neither the accepted one nor accepted itself. -/
theorem tunnel_stranger : ∃ s, FirewallClient.openPortal .plain (fun _ _ => false) .session = .ok .errNone s ∧
    ¬ Bound .plain (fun _ _ => false) s.peerCrtDigest s.strangerTunnel ∧
    ∃ e ∈ s.strangerTunnel.written, e.peerCrt = some ⟨[2]⟩ ∧ ascii "Cookie: SVPNCOOKIE=s" <:+: e.data := by
  have hrun : FirewallClient.strays (FirewallClient.openPortal .plain (fun _ _ => false) .session) = true := by
    decide +kernel
  unfold FirewallClient.strays at hrun
  split at hrun
  · rename_i s hs
    refine ⟨s, hs, ?_⟩
    obtain ⟨e, he, hsent⟩ := List.any_eq_true.1 hrun
    simp only [Bool.and_eq_true, bne_iff_ne, ne_eq, Bool.not_eq_true', beq_iff_eq, decide_eq_true_eq] at hsent
    obtain ⟨⟨⟨⟨hdata, hdigest⟩, haccepts⟩, hcrt⟩, hcookie⟩ := hsent
    refine ⟨fun hbound => ?_, e, he, hcrt, hcookie⟩
    rcases hbound e he hdata with h | h
    · exact hdigest h
    · rw [haccepts] at h
      cases h
  · cases hrun

end FortiRdp.Fw
