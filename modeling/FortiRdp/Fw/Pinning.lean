/-
Certificate pinning: after `open` has accepted a certificate, every request goes over a connection that
shows the recorded digest, and a connection that is left open has completed its handshake and shows it.
A failed handshake or check leaves a socket open for a moment; `do_request` closes it before it returns.
-/
import FortiRdp.Fw.FirewallClient

namespace FortiRdp.Fw

open Util Net Http

/-! ## The connection -/

section Https

variable (P : Option Crt → Prop) (w₀ : List Written)

/-- What was written since `w₀` went to certificates with `P`. -/
def Logged (P : Option Crt → Prop) (w₀ : List Written) (s : HttpsClient) : Prop :=
  ∃ new, s.written = w₀ ++ new ∧ ∀ e ∈ new, P e.peerCrt

/-- A socket that is open has completed its handshake, and its certificate has `P`. -/
def Checked (P : Option Crt → Prop) (s : HttpsClient) : Prop :=
  ∀ c, s.conn = some c → c.established = true ∧ P c.peerCrt

def Pinned (P : Option Crt → Prop) (w₀ : List Written) (s : HttpsClient) : Prop := Logged P w₀ s ∧ Checked P s

/-- `Pinned`, with a socket that is open. -/
def Live (P : Option Crt → Prop) (w₀ : List Written) (s : HttpsClient) : Prop := Pinned P w₀ s ∧ s.conn.isSome = true

theorem keeps_startKeepaliveTimer {I : HttpsClient → Prop} (h : ∀ s timer env, I s → I { s with keepaliveTimer := timer, env }) :
    Run.Keeps I HttpsClient.startKeepaliveTimer := by
  intro s hs
  exact h s _ _ hs

theorem spec_isReconnectionRequired : Run.Spec (Pinned P w₀) HttpsClient.isReconnectionRequired
    (fun b s => Pinned P w₀ s ∧ (b = false → s.conn.isSome = true)) (fun _ => Pinned P w₀) := by
  refine Run.Spec.get_bind fun s₀ => ?_
  by_cases hconn : s₀.conn.isNone = true
  · rw [if_pos hconn]
    exact Run.Spec.pure true fun s hs => ⟨hs.1, fun h => absurd h (by decide)⟩
  rw [if_neg hconn]
  have hsome : s₀.conn.isSome = true := by
    rw [Option.isSome_iff_ne_none]
    rintro h
    rw [h] at hconn
    exact hconn rfl
  -- the timer is read: the connection stays as it is
  have hback : ∀ (b : Bool) (s : HttpsClient), Pinned P w₀ s ∧ s.conn = s₀.conn →
      Pinned P w₀ s ∧ (b = false → s.conn.isSome = true) := by
    rintro b s ⟨hs, h⟩
    exact ⟨hs, fun _ => h ▸ hsome⟩
  refine Run.Spec.bind (J := fun _ s => Pinned P w₀ s ∧ s.conn = s₀.conn) ?_ fun elapsed => ?_
  · rintro s ⟨hs, rfl⟩
    exact ⟨hs, rfl⟩
  · cases elapsed with
    | true => exact Run.Spec.pure true (hback true)
    | false => exact Run.Spec.pure _ (hback _)

/-- A write goes to the connection that is open. -/
theorem keeps_writeBuffer (buffer : Bytes) : Run.Keeps (Live P w₀) (HttpsClient.writeBuffer buffer) := by
  intro s hs
  obtain ⟨⟨⟨new, hnew, hall⟩, hchecked⟩, hsome⟩ := hs
  obtain ⟨conn, hconn⟩ := Option.isSome_iff_exists.1 hsome
  obtain ⟨hdone, hcrt⟩ := hchecked conn hconn
  unfold HttpsClient.writeBuffer
  rw [Run.get_bind]
  generalize tcpWrite (connOutgoing s.conn) buffer = r
  obtain ⟨status, sent, outgoing⟩ := r
  have hlive : Live P w₀ { s with
      conn := s.conn.map fun conn => { conn with outgoing }
      written := s.written ++ [{ peerCrt := s.getPeerCrt, verifyResult := s.getCrtCheck, data := sent }] } := by
    have hpeer : s.getPeerCrt = conn.peerCrt := by
      unfold HttpsClient.getPeerCrt
      rw [hconn]
      rfl
    refine ⟨⟨⟨new ++ [_], by rw [hnew, List.append_assoc], fun e he => ?_⟩, fun c hc => ?_⟩, by simpa using hsome⟩
    · rcases List.mem_append.1 he with he | he
      · exact hall e he
      · rw [List.mem_singleton.1 he]
        show P s.getPeerCrt
        rw [hpeer]
        exact hcrt
    · simp only [hconn, Option.map_some, Option.some.injEq] at hc
      rw [← hc]
      exact ⟨hdone, hcrt⟩
  simp only
  cases status.code with
  | netctxSndOk => exact hlive
  | netctxSndError => exact hlive
  | netctxSndRetry => exact hlive

theorem keeps_sendRequest (request : Request) (cookies : Cookies) :
    Run.Keeps (Live P w₀) (HttpsClient.sendRequest request cookies) := by
  refine Run.Keeps.bind (Run.Keeps.bind (Run.Keeps.zoom fun _ _ h => h) fun head => ?_) fun _ => ?_
  · exact Run.Keeps.bind (keeps_writeBuffer P w₀ head) fun _ => Run.Keeps.ite (keeps_writeBuffer P w₀ _) (Run.Keeps.pure _)
  · exact Run.Keeps.bind (Run.Keeps.modify fun _ h => h) fun _ => keeps_startKeepaliveTimer fun _ _ _ h => h

/-! ### What the operations change

An invariant that does not speak of certain fields is kept by the operations that set no others. -/

theorem keeps_isReconnectionRequired_of {I : HttpsClient → Prop} (henv : ∀ s env, I s → I { s with env }) :
    Run.Keeps I HttpsClient.isReconnectionRequired := by
  refine Run.Keeps.bind Run.Keeps.get fun s => Run.Keeps.ite (Run.Keeps.pure _) ?_
  exact Run.Keeps.bind (Run.Keeps.zoom fun s env hs => henv s env hs) fun elapsed =>
    Run.Keeps.ite (Run.Keeps.pure _) (Run.Keeps.pure _)

/-- Opening the socket sets it, whether the handshake succeeds or fails. -/
theorem keeps_dial_of {I : HttpsClient → Prop} (hconn : ∀ s conn dialed, I s → I { s with conn, dialed }) :
    Run.Keeps I HttpsClient.dial := by
  refine Run.Keeps.bind Run.Keeps.get fun s => ?_
  cases s.conn with
  | some conn => exact Run.Keeps.throw _
  | none =>
    simp only
    generalize tlsConnect s.tlsConfig (s.network s.dialed) = r
    obtain ⟨conn, err⟩ := r
    refine Run.Keeps.bind (Run.Keeps.modify fun s hs => hconn s _ _ hs) fun _ => ?_
    cases err with
    | some rc => exact Run.Keeps.throw _
    | none => exact Run.Keeps.pure _

theorem keeps_connect_of {I : HttpsClient → Prop} (htimer : ∀ s timer env, I s → I { s with keepaliveTimer := timer, env })
    (hcount : ∀ s, I s → I { s with requestCount := 0 }) (hconn : ∀ s conn dialed, I s → I { s with conn, dialed }) :
    Run.Keeps I HttpsClient.connect :=
  Run.Keeps.bind (keeps_startKeepaliveTimer htimer) fun _ => Run.Keeps.bind (Run.Keeps.modify hcount) fun _ => keeps_dial_of hconn

theorem keeps_writeBuffer_of {I : HttpsClient → Prop}
    (hwritten : ∀ s outgoing written, I s → I { s with conn := s.conn.map fun conn => { conn with outgoing }, written })
    (buffer : Bytes) : Run.Keeps I (HttpsClient.writeBuffer buffer) := by
  intro s hs
  unfold HttpsClient.writeBuffer
  rw [Run.get_bind]
  generalize tcpWrite (connOutgoing s.conn) buffer = r
  obtain ⟨status, sent, outgoing⟩ := r
  have hs := hwritten s outgoing (s.written ++ [{ peerCrt := s.getPeerCrt, verifyResult := s.getCrtCheck, data := sent }]) hs
  simp only
  cases status.code with
  | netctxSndOk => exact hs
  | netctxSndError => exact hs
  | netctxSndRetry => exact hs

theorem keeps_send_of {I : HttpsClient → Prop} (henv : ∀ s env, I s → I { s with env })
    (hwritten : ∀ s outgoing written, I s → I { s with conn := s.conn.map fun conn => { conn with outgoing }, written })
    (request : Request) (cookies : Cookies) : Run.Keeps I (HttpsClient.send request cookies) :=
  Run.Keeps.bind (Run.Keeps.zoom fun s env hs => henv s env hs) fun _ =>
    Run.Keeps.bind (keeps_writeBuffer_of hwritten _) fun _ => Run.Keeps.ite (keeps_writeBuffer_of hwritten _) (Run.Keeps.pure _)

/-- An answer that is read changes the parameters of the connection, and what is still to come on it. -/
theorem keeps_recvAnswer_of {I : HttpsClient → Prop}
    (hback : ∀ s incoming env, I s → I { s with conn := s.conn.map fun conn => { conn with incoming }, env })
    (hparams : ∀ s maxRequests keepaliveTimeout, I s → I { s with maxRequests, keepaliveTimeout })
    (lib : DateLib) (zlib : Zlib) (answer : Answer) : Run.Keeps I (HttpsClient.recvAnswer lib zlib answer) := by
  refine Run.Keeps.bind (fun s hs => ?_) fun v => Run.Keeps.bind (Run.Keeps.except _) fun _ =>
    Run.Keeps.bind (Run.Keeps.modify fun s hs => hparams s _ _ hs) fun _ => Run.Keeps.pure _
  unfold HttpsClient.receive
  simp only
  cases Answer.recv lib zlib { answer := answer.clear, incoming := connIncoming s.conn, env := s.env } with
  | ok a r => exact hback s r.incoming r.env hs
  | error e r => exact hback s r.incoming r.env hs

theorem keeps_recvAnswer (lib : DateLib) (zlib : Zlib) (answer : Answer) :
    Run.Keeps (Pinned P w₀) (HttpsClient.recvAnswer lib zlib answer) := by
  refine keeps_recvAnswer_of (fun s incoming env hs => ⟨hs.1, fun c hc => ?_⟩) (fun _ _ _ hs => hs) lib zlib answer
  -- the connection has other bytes to come, and is the same otherwise
  simp only [Option.map_eq_some_iff] at hc
  obtain ⟨c₀, hc₀, rfl⟩ := hc
  exact hs.2 c₀ hc₀

/-- A connection that is made has completed its handshake; one that fails throws an `mbed_error`. -/
theorem spec_connect : Run.Spec (Logged P w₀) HttpsClient.connect
    (fun _ s => Logged P w₀ s ∧ ∃ c, s.conn = some c ∧ c.established = true)
    (fun e s => Logged P w₀ s ∧ e.isRuntimeError = true) := by
  refine Run.Spec.bind (J := fun _ => Logged P w₀) (fun s hs => hs) fun _ => ?_
  refine Run.Spec.bind (J := fun _ => Logged P w₀) (Run.Spec.modify fun s hs => hs) fun _ => ?_
  intro s hs
  unfold HttpsClient.dial
  rw [Run.get_bind]
  cases hconn : s.conn with
  | some c => exact ⟨hs, rfl⟩
  | none =>
    simp only
    cases hdial : s.network s.dialed with
    | refused rc => exact ⟨hs, rfl⟩
    | opened rc steps conn =>
      unfold tlsConnect
      simp only
      cases herr : (if rc < 0 then some rc else handshake s.tlsConfig conn.verifyResult steps) with
      | none => exact ⟨hs, _, rfl, rfl⟩
      | some e => exact ⟨hs, rfl⟩

theorem spec_disconnect : Run.Spec (Logged P w₀) HttpsClient.disconnect (fun _ => Pinned P w₀) (fun _ => Pinned P w₀) :=
  Run.Spec.modify fun _ hs => ⟨hs, nofun⟩

end Https

/-! ## The client -/

section Client

variable {p : Portal} {D : Bytes} {w₀ : List Written}

/-- The certificate has the digest. -/
def Portal.Shows (p : Portal) (D : Bytes) (crt : Option Crt) : Prop := p.crtDigest crt = D

/-- The recorded digest is `D`, and all that was written since `w₀` went to it. -/
structure PinnedTo (p : Portal) (D : Bytes) (w₀ : List Written) (s : FirewallClient) : Prop where
  digest : s.peerCrtDigest = D
  pinned : Pinned (p.Shows D) w₀ s.https

theorem attempt_ok {α : Type} {x : HttpsM α} {s : FirewallClient} {a : α} {https : HttpsClient} (h : x s.https = .ok a https) :
    FirewallClient.attempt x s = .ok (some a) { s with https } := by
  unfold FirewallClient.attempt
  rw [h]

theorem attempt_error {α : Type} {x : HttpsM α} {s : FirewallClient} {e : Exn} {https : HttpsClient}
    (h : x s.https = .error e https) :
    FirewallClient.attempt x s = .ok none { s with https } ∨ FirewallClient.attempt x s = .error e { s with https } := by
  unfold FirewallClient.attempt
  rw [h]
  by_cases he : e.isRuntimeError = true
  · exact .inl (if_pos he)
  · exact .inr (if_neg he)

/-- What a call under `catch` does is what it does to the connection. -/
theorem endState_attempt {α : Type} (x : HttpsM α) (s : FirewallClient) :
    Run.endState (FirewallClient.attempt x s) = { s with https := Run.endState (x s.https) } := by
  unfold FirewallClient.attempt
  cases x s.https with
  | ok a https => rfl
  | error e https =>
    dsimp only
    split <;> rfl

theorem keeps_attempt {α : Type} {x : HttpsM α} {I : FirewallClient → Prop}
    (h : ∀ s, I s → I { s with https := Run.endState (x s.https) }) : Run.Keeps I (FirewallClient.attempt x) :=
  Run.Keeps.of_endState fun s hs => endState_attempt x s ▸ h s hs

theorem keeps_onHttps {α : Type} {x : HttpsM α} {I : FirewallClient → Prop}
    (h : ∀ s, I s → I { s with https := Run.endState (x s.https) }) : Run.Keeps I (FirewallClient.onHttps x) :=
  Run.Keeps.of_endState fun s hs => by
    unfold FirewallClient.onHttps
    rw [Run.endState_zoom]
    exact h s hs

theorem keeps_reconnect {p : Portal} {I : FirewallClient → Prop}
    (hdisconnect : Run.Keeps I (FirewallClient.onHttps HttpsClient.disconnect))
    (hconnect : Run.Keeps I (FirewallClient.attempt HttpsClient.connect)) : Run.Keeps I (FirewallClient.reconnect p) := by
  refine Run.Keeps.bind hdisconnect fun _ => Run.Keeps.bind hconnect fun r => ?_
  cases r with
  | none => exact Run.Keeps.pure _
  | some u => exact Run.Keeps.bind Run.Keeps.get fun _ => Run.Keeps.pure _

/-- Sending and receiving keeps what each of its calls to the connection keeps. -/
theorem keeps_sendAndReceive_of {p : Portal} {I : FirewallClient → Prop}
    (hrequired : Run.Keeps I (FirewallClient.onHttps HttpsClient.isReconnectionRequired))
    (hreconnect : Run.Keeps I (FirewallClient.reconnect p))
    (hsend : ∀ request cookies, Run.Keeps I (FirewallClient.attempt (HttpsClient.sendRequest request cookies)))
    (hrecv : ∀ answer, Run.Keeps I (FirewallClient.attempt (HttpsClient.recvAnswer p.lib p.zlib answer)))
    (request : Request) (answer : Answer) : Run.Keeps I (FirewallClient.sendAndReceive p request answer) := by
  have hexchange : Run.Keeps I (FirewallClient.exchange p request answer) := by
    refine Run.Keeps.bind Run.Keeps.get fun s => Run.Keeps.bind (hsend _ _) fun r => ?_
    cases r with
    | none => exact Run.Keeps.pure _
    | some u => exact hrecv answer
  refine Run.Keeps.bind hrequired fun required => Run.Keeps.ite ?_ hexchange
  exact Run.Keeps.bind hreconnect fun connected => Run.Keeps.ite hexchange (Run.Keeps.pure _)

/-- A call under `catch`: what it throws else is no runtime error. -/
theorem spec_attempt {α : Type} {x : HttpsM α} {I : HttpsClient → Prop} {J : α → HttpsClient → Prop}
    {K : Exn → HttpsClient → Prop} (h : Run.Spec I x J K) :
    Run.Spec (fun s => s.peerCrtDigest = D ∧ I s.https) (FirewallClient.attempt x)
      (fun r s => s.peerCrtDigest = D ∧ match r with
        | some a => J a s.https
        | none => ∃ e, K e s.https)
      (fun e s => s.peerCrtDigest = D ∧ K e s.https ∧ e.isRuntimeError = false) := by
  rintro s ⟨hdigest, hs⟩
  have hx := h s.https hs
  unfold FirewallClient.attempt
  cases hrun : x s.https with
  | ok a https =>
    rw [hrun] at hx
    exact ⟨hdigest, hx⟩
  | error e https =>
    rw [hrun] at hx
    simp only
    by_cases he : e.isRuntimeError = true
    · rw [if_pos he]
      exact ⟨hdigest, e, hx⟩
    · rw [if_neg he]
      exact ⟨hdigest, hx, Bool.not_eq_true _ ▸ he⟩

/-- The connection may be unchecked. -/
def Broken (p : Portal) (D : Bytes) (w₀ : List Written) (s : FirewallClient) : Prop :=
  s.peerCrtDigest = D ∧ Logged (p.Shows D) w₀ s.https

theorem spec_reconnect : Run.Spec (Broken p D w₀) (FirewallClient.reconnect p)
    (fun b s => Broken p D w₀ s ∧ (b = true → Live (p.Shows D) w₀ s.https)) (fun _ => PinnedTo p D w₀) := by
  refine Run.Spec.bind (J := fun _ s => Broken p D w₀ s) (fun s hs => hs) fun _ => ?_
  have hconnect := spec_attempt (D := D) (spec_connect (p.Shows D) w₀)
  refine Run.Spec.bind (hconnect.consequence (fun s h => h) (fun r s h => h) ?_) fun r => ?_
  · rintro e s ⟨-, ⟨-, he⟩, hne⟩
    rw [he] at hne
    cases hne
  cases r with
  | none => exact Run.Spec.pure false fun s ⟨hdigest, e, hlogged, _⟩ => ⟨⟨hdigest, hlogged⟩, nofun⟩
  | some u =>
    refine Run.Spec.get_bind fun s₀ => Run.Spec.pure _ ?_
    rintro s ⟨⟨hdigest, hlogged, c, hconn, hdone⟩, rfl⟩
    refine ⟨⟨hdigest, hlogged⟩, fun heq => ⟨⟨hlogged, fun c' hc' => ?_⟩, by rw [hconn]; rfl⟩⟩
    rw [hconn] at hc'
    cases hc'
    refine ⟨hdone, ?_⟩
    have hsame := eq_of_beq heq
    rw [hdigest] at hsame
    show p.crtDigest c.peerCrt = D
    rw [hsame]
    unfold HttpsClient.getPeerCrt
    rw [hconn]
    rfl

/-- An exchange goes over a connection that is checked. -/
theorem spec_exchange (request : Request) (answer : Answer) :
    Run.Spec (fun s => s.peerCrtDigest = D ∧ Live (p.Shows D) w₀ s.https) (FirewallClient.exchange p request answer)
      (fun _ => PinnedTo p D w₀) (fun _ => PinnedTo p D w₀) := by
  refine Run.Spec.get_bind fun s₀ => ?_
  have hsend := spec_attempt (D := D) (keeps_sendRequest (p.Shows D) w₀ request s₀.cookieJar)
  refine Run.Spec.bind (hsend.consequence (fun s h => h.1) (fun r s h => h) fun e s h => ⟨h.1, h.2.1.1⟩) fun r => ?_
  cases r with
  | none => exact Run.Spec.pure none fun s ⟨hdigest, _, hlive⟩ => ⟨hdigest, hlive.1⟩
  | some u =>
    have hrecv := spec_attempt (D := D) (keeps_recvAnswer (p.Shows D) w₀ p.lib p.zlib answer)
    refine hrecv.consequence (fun s h => ⟨h.1, h.2.1⟩) (fun r s h => ?_) fun e s h => ⟨h.1, h.2.1⟩
    cases r with
    | none =>
      obtain ⟨hdigest, _, hpinned⟩ := h
      exact ⟨hdigest, hpinned⟩
    | some a => exact ⟨h.1, h.2⟩

/-- A request that fails may leave an unchecked connection. -/
theorem spec_sendAndReceive (request : Request) (answer : Answer) :
    Run.Spec (PinnedTo p D w₀) (FirewallClient.sendAndReceive p request answer)
      (fun r s => match r with
        | some _ => PinnedTo p D w₀ s
        | none => Broken p D w₀ s)
      (fun _ => PinnedTo p D w₀) := by
  have hexchange : Run.Spec (fun s => s.peerCrtDigest = D ∧ Live (p.Shows D) w₀ s.https)
      (FirewallClient.exchange p request answer) (fun r s => match r with
        | some _ => PinnedTo p D w₀ s
        | none => Broken p D w₀ s) (fun _ => PinnedTo p D w₀) := by
    refine (spec_exchange request answer).consequence (fun s h => h) (fun r s h => ?_) fun e s h => h
    cases r with
    | none => exact ⟨h.digest, h.pinned.1⟩
    | some a => exact h
  refine Run.Spec.bind (J := fun b s => PinnedTo p D w₀ s ∧ (b = false → s.https.conn.isSome = true)) ?_ fun b => ?_
  · refine Run.Spec.zoom (spec_isReconnectionRequired (p.Shows D) w₀) (fun s hs => hs.pinned) ?_ ?_
    · rintro s b https hs ⟨hpinned, hopen⟩
      exact ⟨⟨hs.digest, hpinned⟩, hopen⟩
    · intro s e https hs hpinned
      exact ⟨hs.digest, hpinned⟩
  cases b with
  | false => exact hexchange.consequence (fun s h => ⟨h.1.digest, h.1.pinned, h.2 rfl⟩) (fun _ _ h => h) fun _ _ h => h
  | true =>
    refine Run.Spec.bind (spec_reconnect.consequence (fun s h => ⟨h.1.digest, h.1.pinned.1⟩) (fun _ _ h => h)
      fun _ _ h => h) fun b => ?_
    cases b with
    | true => exact hexchange.consequence (fun s h => ⟨h.1.1, h.2 rfl⟩) (fun _ _ h => h) fun _ _ h => h
    | false => exact Run.Spec.pure none fun s h => h.1

/-- `I` says nothing about the cookie jar or the clocks. -/
structure Indifferent (I : FirewallClient → Prop) : Prop where
  env : ∀ s env, I s → I { s with https := { s.https with env } }
  jar : ∀ s cookieJar, I s → I { s with cookieJar }

theorem Indifferent.keeps_onEnv {I : FirewallClient → Prop} (h : Indifferent I) {α : Type} (x : EnvM α) :
    Run.Keeps I (FirewallClient.onHttps (HttpsClient.onEnv x)) := by
  intro s hs
  have henv : Run.Keeps (fun https => I { s with https }) (HttpsClient.onEnv x) :=
    Run.Keeps.zoom fun https env hI => h.env { s with https } env hI
  exact Run.Spec.zoom (I := fun t => t = s) (J := fun _ => I) (K := fun _ => I) henv (fun t ht => ht ▸ hs)
    (fun t a https ht hI => ht ▸ hI) (fun t e https ht hI => ht ▸ hI) s rfl

theorem Indifferent.keeps_storeCookie {I : FirewallClient → Prop} (h : Indifferent I) (url : Url) (cookie : Cookie) :
    Run.Keeps I (FirewallClient.storeCookie url cookie) := by
  refine Run.Keeps.bind (Run.Keeps.except _) fun urlDomain => ?_
  refine Run.Keeps.bind (Run.Keeps.except _) fun sameHost => ?_
  refine Run.Keeps.ite (Run.Keeps.bind (h.keeps_onEnv _) fun expired => ?_) (Run.Keeps.pure _)
  refine Run.Keeps.ite (Run.Keeps.modify fun s hs => h.jar s _ hs) (Run.Keeps.ite ?_ (Run.Keeps.pure _))
  exact Run.Keeps.bind (Run.Keeps.except _) fun stored => Run.Keeps.modify fun s hs => h.jar s _ hs

theorem indifferent_pinnedTo : Indifferent (PinnedTo p D w₀) :=
  ⟨fun _ _ h => ⟨h.digest, h.pinned⟩, fun _ _ h => ⟨h.digest, h.pinned⟩⟩

theorem keeps_forM {I : FirewallClient → Prop} {α : Type} {f : α → FwM Unit} (h : ∀ a, Run.Keeps I (f a)) :
    ∀ l : List α, Run.Keeps I (l.forM f)
  | [] => Run.Keeps.pure _
  | a :: l => Run.Keeps.bind (h a) fun _ => keeps_forM h l

/-- A request keeps the pin: when it fails, the connection is closed. -/
theorem keeps_doRequest (call : FirewallClient.Call) : Run.Keeps (PinnedTo p D w₀) (FirewallClient.doRequest p call) := by
  refine Run.Spec.get_bind fun s₀ => ?_
  refine Run.Spec.bind ((spec_sendAndReceive _ call.answer).consequence (fun s h => h.1) (fun _ _ h => h) fun _ _ h => h)
    fun r => ?_
  cases r with
  | none =>
    refine Run.Spec.bind (J := fun _ => PinnedTo p D w₀) ?_ fun _ => Run.Keeps.pure none
    refine Run.Spec.zoom (spec_disconnect (p.Shows D) w₀) (fun s hs => hs.2) ?_ ?_
    · intro s _ https hs hpinned
      exact ⟨hs.1, hpinned⟩
    · intro s _ https hs hpinned
      exact ⟨hs.1, hpinned⟩
  | some answer =>
    exact Run.Keeps.bind (keeps_forM (indifferent_pinnedTo.keeps_storeCookie call.url) _) fun _ => Run.Keeps.pure _

end Client

/-! ## The calls of the portal -/

section Calls

variable {p : Portal} {I : FirewallClient → Prop}

/-- Every request keeps `I`. -/
structure Kept (p : Portal) (I : FirewallClient → Prop) : Prop extends Indifferent I where
  request : ∀ call, Run.Keeps I (FirewallClient.doRequest p call)

theorem Kept.makeUrl (path : String) (query : Bytes) : Run.Keeps I (FirewallClient.makeUrl path query) :=
  Run.Keeps.bind Run.Keeps.get fun _ => Run.Keeps.except _

theorem Kept.sendRequest (h : Kept p I) : ∀ (allowed : Nat) (call : FirewallClient.Call),
    Run.Keeps I (FirewallClient.sendRequest p allowed call)
  | 0, _ => Run.Keeps.pure none
  | allowed + 1, call => by
    refine Run.Keeps.bind (h.request call) fun r => ?_
    cases r with
    | none => exact Run.Keeps.pure none
    | some answer =>
      refine Run.Keeps.ite ?_ (Run.Keeps.pure _)
      cases answer.headers.getStr (ascii "Location") with
      | none => exact Run.Keeps.pure _
      | some location =>
        exact Run.Keeps.bind Run.Keeps.get fun s => Run.Keeps.bind (Run.Keeps.except _) fun url =>
          h.sendRequest allowed { call with url, answer }

theorem Kept.openPage (h : Kept p I) : Run.Keeps I (FirewallClient.openPage p) := by
  refine Run.Keeps.bind (Kept.makeUrl _ _) fun url => Run.Keeps.bind (h.sendRequest 3 _) fun r => ?_
  cases r with
  | none => exact Run.Keeps.pure _
  | some answer => exact Run.Keeps.pure _

theorem Indifferent.isAuthenticated (h : Indifferent I) : Run.Keeps I FirewallClient.isAuthenticated := by
  refine Run.Keeps.bind Run.Keeps.get fun s => ?_
  cases s.cookieJar.get (ascii "SVPNCOOKIE") with
  | none => exact Run.Keeps.pure _
  | some cookie => exact Run.Keeps.ite (Run.Keeps.pure _) (Run.Keeps.bind (h.keeps_onEnv _) fun _ => Run.Keeps.pure _)

theorem Kept.tryLoginCheck (h : Kept p I) (inParams : StringMap) :
    Run.Keeps I (FirewallClient.tryLoginCheck p inParams) := by
  refine Run.Keeps.bind (Kept.makeUrl _ _) fun url => Run.Keeps.bind (h.sendRequest 1 _) fun r => ?_
  cases r with
  | none => exact Run.Keeps.pure _
  | some answer =>
    refine Run.Keeps.ite (Run.Keeps.bind (Run.Keeps.except _) fun outParams => ?_) (Run.Keeps.pure _)
    cases outParams.getInt (ascii "ret") with
    | none => exact Run.Keeps.pure _
    | some _ => exact Run.Keeps.pure _

theorem Kept.loginStep (h : Kept p I) (askCode : Nat → Bytes → Option Bytes) (b : Nat × StringMap) :
    Run.Keeps I (FirewallClient.loginStep p askCode b) := by
  refine Run.Keeps.bind (h.tryLoginCheck b.2) fun v => Run.Keeps.ite (Run.Keeps.pure _) ?_
  refine Run.Keeps.ite ?_ (Run.Keeps.ite ?_ ?_)
  · exact Run.Keeps.bind (Run.Keeps.except _) fun _ => Run.Keeps.bind (Run.Keeps.except _) fun _ => Run.Keeps.pure _
  · refine Run.Keeps.bind (Run.Keeps.except _) fun _ => Run.Keeps.bind Run.Keeps.get fun _ => ?_
    refine Run.Keeps.bind (Run.Keeps.except _) fun url => Run.Keeps.bind (h.sendRequest 1 _) fun r => ?_
    cases r with
    | none => exact Run.Keeps.pure _
    | some _ => exact Run.Keeps.pure _
  · refine Run.Keeps.bind (Run.Keeps.except _) fun next => ?_
    cases next with
    | inl err => exact Run.Keeps.pure _
    | inr params => exact Run.Keeps.pure _

theorem Kept.loginBasic (h : Kept p I) (askCredential : Option (Bytes × Bytes)) (askCode : Nat → Bytes → Option Bytes)
    (fuel : Nat) : Run.Keeps I (FirewallClient.loginBasic p askCredential askCode fuel) := by
  refine Run.Keeps.bind Run.Keeps.get fun s => Run.Keeps.bind (Kept.makeUrl _ _) fun url => ?_
  refine Run.Keeps.bind (h.sendRequest 1 _) fun r => ?_
  cases r with
  | none => exact Run.Keeps.pure _
  | some answer =>
    refine Run.Keeps.ite (Run.Keeps.pure _) (Run.Keeps.bind h.isAuthenticated fun authenticated => ?_)
    refine Run.Keeps.ite (Run.Keeps.pure _) ?_
    cases askCredential with
    | none => exact Run.Keeps.pure _
    | some credential => exact Run.Keeps.iterate (h.loginStep askCode) fuel _

theorem Indifferent.loginSaml (h : Indifferent I) (askSamlauth : Url → Bytes → Cookies → Bool × Cookies) :
    Run.Keeps I (FirewallClient.loginSaml p askSamlauth) := by
  refine Run.Keeps.bind Run.Keeps.get fun s => ?_
  cases s.https.getPeerCrt.bind p.toPem with
  | none => exact Run.Keeps.pure _
  | some pem =>
    exact Run.Keeps.bind (Kept.makeUrl _ _) fun url =>
      Run.Keeps.bind (Run.Keeps.modify fun s hs => h.jar s _ hs) fun _ => Run.Keeps.pure _

theorem Kept.logout (h : Kept p I) : Run.Keeps I (FirewallClient.logout p) :=
  Run.Keeps.bind (Kept.makeUrl _ _) fun _ => Run.Keeps.bind (h.sendRequest 1 _) fun _ =>
    Run.Keeps.bind (Run.Keeps.modify fun s hs => h.jar s _ hs) fun _ => Run.Keeps.pure _

theorem Kept.getPage (h : Kept p I) (path : String) (query : Bytes) :
    Run.Keeps I (FirewallClient.getPage p path query) := by
  refine Run.Keeps.bind h.isAuthenticated fun authenticated => Run.Keeps.ite ?_ (Run.Keeps.pure _)
  refine Run.Keeps.bind (Kept.makeUrl _ _) fun url => Run.Keeps.bind (h.sendRequest 1 _) fun r => ?_
  cases r with
  | none => exact Run.Keeps.pure _
  | some answer => exact Run.Keeps.pure _

end Calls

/-- The calls that follow `open`, with the answers of the user. -/
inductive PortalCall where
  | loginBasic (askCredential : Option (Bytes × Bytes)) (askCode : Nat → Bytes → Option Bytes) (fuel : Nat)
  | loginSaml (askSamlauth : Url → Bytes → Cookies → Bool × Cookies)
  | getInfo
  | getConfig
  | logout

/-- The state after a call, whether it returns or throws. -/
def PortalCall.run (p : Portal) : PortalCall → FirewallClient → FirewallClient
  | .loginBasic askCredential askCode fuel, s =>
    Run.endState (FirewallClient.loginBasic p askCredential askCode fuel s)
  | .loginSaml askSamlauth, s => Run.endState (FirewallClient.loginSaml p askSamlauth s)
  | .getInfo, s => Run.endState (FirewallClient.getInfo p s)
  | .getConfig, s => Run.endState (FirewallClient.getConfig p s)
  | .logout, s => Run.endState (FirewallClient.logout p s)

theorem Kept.run {p : Portal} {I : FirewallClient → Prop} (h : Kept p I) (call : PortalCall) {s : FirewallClient}
    (hs : I s) : I (call.run p s) := by
  cases call with
  | loginBasic askCredential askCode fuel => exact Run.Spec.endState (h.loginBasic askCredential askCode fuel) hs
  | loginSaml askSamlauth => exact Run.Spec.endState (h.loginSaml askSamlauth) hs
  | getInfo => exact Run.Spec.endState (Run.Keeps.bind (h.getPage _ _) fun _ => Run.Keeps.pure _) hs
  | getConfig => exact Run.Spec.endState (Run.Keeps.bind (h.getPage _ _) fun _ => Run.Keeps.pure _) hs
  | logout => exact Run.Spec.endState h.logout hs

theorem Kept.runs {p : Portal} {I : FirewallClient → Prop} (h : Kept p I) : ∀ (calls : List PortalCall) {s : FirewallClient},
    I s → I (calls.foldl (fun s call => call.run p s) s)
  | [], _, hs => hs
  | call :: calls, _, hs => h.runs calls (h.run call hs)

theorem kept_pinnedTo (p : Portal) (D : Bytes) (w₀ : List Written) : Kept p (PinnedTo p D w₀) :=
  { indifferent_pinnedTo with request := keeps_doRequest }

/-- A portal that is open is pinned to the certificate that was accepted. -/
theorem spec_openPortal (p : Portal) (confirmCrt : Option Crt → UInt32 → Bool) (w₀ : List Written) (D₀ : Bytes) :
    Run.Spec (fun s => s.peerCrtDigest = D₀ ∧ s.https.written = w₀) (FirewallClient.openPortal p confirmCrt)
      (fun err s => err = .errNone → PinnedTo p s.peerCrtDigest w₀ s) (fun _ _ => True) := by
  -- until the first request nothing is written at all
  have hconnect := spec_attempt (D := D₀) (spec_connect (fun _ => False) w₀)
  refine Run.Spec.bind (hconnect.consequence (fun s h => ⟨h.1, [], by rw [h.2, List.append_nil], nofun⟩)
    (fun _ _ h => h) fun _ _ _ => trivial) fun r => ?_
  cases r with
  | none => exact Run.Spec.pure _ fun s _ => nofun
  | some u =>
    refine Run.Spec.get_bind fun s₀ => ?_
    by_cases haccepts : p.accepts confirmCrt s₀.https.getPeerCrt s₀.https.getCrtCheck = true
    swap
    · rw [if_neg haccepts]
      exact Run.Spec.pure _ fun s _ => nofun
    rw [if_pos haccepts]
    refine Run.Spec.bind (J := fun _ => PinnedTo p (p.crtDigest s₀.https.getPeerCrt) w₀) ?_ fun _ => ?_
    · rintro s ⟨⟨-, ⟨new, hnew, hall⟩, c, hconn, hdone⟩, rfl⟩
      refine ⟨rfl, ⟨new, hnew, fun e he => (hall e he).elim⟩, fun c' hc' => ?_⟩
      have hc : c' = c := Option.some.inj (hc'.symm.trans hconn)
      subst hc
      refine ⟨hdone, ?_⟩
      show p.crtDigest c'.peerCrt = p.crtDigest s.https.getPeerCrt
      unfold HttpsClient.getPeerCrt
      rw [hconn]
      rfl
    · refine ((kept_pinnedTo p _ w₀).openPage).consequence (fun s h => h) (fun err s h _ => ?_) fun _ _ _ => trivial
      rw [h.digest]
      exact h

/-- After `open` has returned without an error, all requests, of `open` and of any calls after it, go to
certificates with the recorded digest, and a connection that a call leaves open has completed its handshake
and shows that digest. -/
theorem open_pinned (p : Portal) (confirmCrt : Option Crt → UInt32 → Bool) (s₀ s₁ : FirewallClient)
    (h : FirewallClient.openPortal p confirmCrt s₀ = .ok .errNone s₁) (calls : List PortalCall) :
    let s := calls.foldl (fun s call => call.run p s) s₁
    s.peerCrtDigest = s₁.peerCrtDigest ∧
      (∃ new, s.https.written = s₀.https.written ++ new ∧ ∀ e ∈ new, p.crtDigest e.peerCrt = s₁.peerCrtDigest) ∧
      ∀ c, s.https.conn = some c → c.established = true ∧ p.crtDigest c.peerCrt = s₁.peerCrtDigest := by
  have hopen := spec_openPortal p confirmCrt s₀.https.written s₀.peerCrtDigest s₀ ⟨rfl, rfl⟩
  rw [h] at hopen
  have hpinned := (kept_pinnedTo p s₁.peerCrtDigest s₀.https.written).runs calls (hopen rfl)
  exact ⟨hpinned.digest, hpinned.pinned.1, hpinned.pinned.2⟩

/-- A system that knows no dates and whose digest is the certificate itself. -/
def Portal.plain : Portal where
  lib := noDates
  zlib := noZlib
  sha256 := id
  isTrusted _ := false
  toPem _ := none
  portalInfo := id
  localAddr := some

/-- A server with a certificate that answers one request. -/
def answering (crt : Crt) (verifyResult : UInt32) : Dial :=
  .opened 0 [.done] {
    peerCrt := some crt
    verifyResult
    established := false
    incoming := keepData (ascii "HTTP/1.1 200 OK\r\n\r\n") []
    outgoing := [.taken 1000, .taken 1000] }

/-- A client that meets the same server each time it connects. -/
def FirewallClient.fresh : FirewallClient :=
  .new (.new { hostname := ascii "fw", port := 443 } TlsConfig.new.setCaCrt (fun _ => answering ⟨[1]⟩ 0) .still) []

/-- It returned without an error. -/
def succeeds : EStateM.Result Exn FirewallClient PortalErr → Bool
  | .ok .errNone _ => true
  | _ => false

theorem succeeds_iff {r : EStateM.Result Exn FirewallClient PortalErr} (h : succeeds r = true) :
    ∃ s, r = .ok .errNone s := by
  cases r with
  | error e s => cases h
  | ok err s =>
    cases err with
    | errNone => exact ⟨s, rfl⟩
    | _ => cases h

theorem openPortal_fresh : succeeds (FirewallClient.openPortal .plain (fun _ _ => false) .fresh) = true := by
  decide +kernel

theorem open_pinned_fresh : ∃ s₁, FirewallClient.openPortal .plain (fun _ _ => false) .fresh = .ok .errNone s₁ ∧
    let s := [PortalCall.getInfo, .logout].foldl (fun s call => call.run .plain s) s₁
    s.peerCrtDigest = s₁.peerCrtDigest ∧
      (∃ new, s.https.written = FirewallClient.fresh.https.written ++ new ∧
        ∀ e ∈ new, Portal.plain.crtDigest e.peerCrt = s₁.peerCrtDigest) ∧
      ∀ c, s.https.conn = some c → c.established = true ∧ Portal.plain.crtDigest c.peerCrt = s₁.peerCrtDigest := by
  obtain ⟨s₁, h⟩ := succeeds_iff openPortal_fresh
  exact ⟨s₁, h, open_pinned .plain (fun _ _ => false) .fresh s₁ h [.getInfo, .logout]⟩

end FortiRdp.Fw
