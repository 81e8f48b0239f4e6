/-
The reuse of connections. A server announces with its answers how many requests a connection takes and for how
long it may be idle. A ledger of what happened on the connection says when a request may go over it again; the
client arms its timer when it sends a request, with the time-out of the answer before.
-/
import FortiRdp.Fw.Sessions

namespace FortiRdp.Fw

open Util Net Http Run

/-! ## The ledger -/

/-- What happens on the connection, with the times in milliseconds. -/
inductive Event where
  | call (now : Nat) (reused : Bool)
  | connected
  | sent (now : Nat)
  | announced (maxRequests timeout : Int)

/-- The requests that were sent on the connection, the time of the last one with the time-out that was announced
before it, and what was announced last. -/
structure Ledger where
  sent : Nat
  last : Option (Nat × Int)
  maxRequests : Int
  timeout : Int

namespace Ledger

/-- Before the first announcement the defaults hold. -/
def start : Ledger := { sent := 0, last := none, maxRequests := 100, timeout := 60 }

def step (g : Ledger) : Event → Ledger
  | .call _ _ => g
  | .connected => { g with sent := 0, last := none }
  | .sent now => { g with sent := g.sent + 1, last := some (now, g.timeout) }
  | .announced maxRequests timeout => { g with maxRequests := max 0 maxRequests, timeout := max 0 timeout }

/-- A connection is used again only within what was announced last, and a time-out in milliseconds fits into
an `int`. -/
def Respects (g : Ledger) : Event → Prop
  | .call now reused => reused = true → (g.sent : Int) < g.maxRequests ∧ ∀ l ∈ g.last, (now : Int) ≤ l.1 + g.timeout * 1000
  | .announced _ timeout => max 0 timeout * 1000 < 2 ^ 31
  | .connected | .sent _ => True

/-- No request comes when the announced time-out is over and the one before it is not, and no time-out has more
than 2147483 seconds. -/
def Clear (g : Ledger) : Event → Prop
  | .call now _ => ¬ ((g.sent : Int) < g.maxRequests ∧
      ∃ l ∈ g.last, (l.1 : Int) + g.timeout * 1000 < now ∧ (now : Int) ≤ l.1 + l.2 * 1000)
  | .announced _ timeout => timeout ≤ 2147483
  | .connected | .sent _ => True

instance (g : Ledger) : ∀ e : Event, Decidable (g.Respects e)
  | .call _ _ | .announced _ _ | .connected | .sent _ => by unfold Respects; infer_instance

instance (g : Ledger) : ∀ e : Event, Decidable (g.Clear e)
  | .call _ _ | .announced _ _ | .connected | .sent _ => by unfold Clear; infer_instance

end Ledger

/-! ## What happens in a call -/

section Events

variable (p : Portal)

/-- What an answer announces. -/
def announcedBy (answer : Answer) : List Event :=
  match HttpsClient.keepAliveParams answer.headers with
  | .ok (maxRequests, timeout) => [.announced maxRequests timeout]
  | .error _ => []

/-- The time of the last reading of the clock. -/
def lastTick (s : HttpsClient) : Nat := s.env.tick (s.env.reads - 1)

def exchangeEvents (request : Request) (answer : Answer) (s : FirewallClient) : List Event :=
  onReturn (FirewallClient.attempt (HttpsClient.sendRequest request s.cookieJar) s) fun r t =>
    match r with
    | none => []
    | some () => .sent (lastTick t.https) ::
      onReturn (FirewallClient.attempt (HttpsClient.recvAnswer p.lib p.zlib answer) t) fun r _ =>
        match r with
        | none => []
        | some answer => announcedBy answer

/-- What happens in a call of `send_and_receive`; the time of the call is that of its first reading of the clock. -/
def callEvents (request : Request) (answer : Answer) (s : FirewallClient) : List Event :=
  onReturn (FirewallClient.onHttps HttpsClient.isReconnectionRequired s) fun required t =>
    .call (s.https.env.tick s.https.env.reads) (!required) ::
      if required then
        .connected :: onReturn (FirewallClient.reconnect p t) fun connected u =>
          if connected then exchangeEvents p request answer u else []
      else exchangeEvents p request answer t

end Events

/-- What a client does with its connection. -/
inductive Use where
  | sendAndReceive (request : Request) (answer : Answer)
  | disconnect

def Use.run (p : Portal) : Use → FirewallClient → FirewallClient
  | .sendAndReceive request answer, s => endState (FirewallClient.sendAndReceive p request answer s)
  | .disconnect, s => endState (FirewallClient.onHttps HttpsClient.disconnect s)

def Use.events (p : Portal) : Use → FirewallClient → List Event
  | .sendAndReceive request answer, s => callEvents p request answer s
  | .disconnect, _ => [.connected]

/-- What happens on the connections of a client. -/
def useEvents (p : Portal) : List Use → FirewallClient → List Event
  | [], _ => []
  | use :: uses, s => use.events p s ++ useEvents p uses (use.run p s)

/-! ## The client follows the ledger -/

/-- The parameters of the client, and its counter for a connection that is open, are those of the ledger; its timer
runs from the last request, for the time-out that was announced before it. -/
structure Tracks (g : Ledger) (s : HttpsClient) : Prop where
  count : s.conn.isSome = true → s.requestCount = g.sent
  maxRequests : s.maxRequests = g.maxRequests
  timeout : s.keepaliveTimeout = g.timeout
  bounds : 0 ≤ g.timeout ∧ g.timeout ≤ 2147483
  last : ∀ l ∈ g.last, s.conn.isSome = true ∧ (s.keepaliveTimer.dueTime : Int) = l.1 + l.2 * 1000

theorem Tracks.frame {g : Ledger} {s s' : HttpsClient} (h : Tracks g s) (hcount : s'.requestCount = s.requestCount)
    (hmax : s'.maxRequests = s.maxRequests) (htimeout : s'.keepaliveTimeout = s.keepaliveTimeout)
    (htimer : s'.keepaliveTimer = s.keepaliveTimer) (hconn : s'.conn.isSome = s.conn.isSome) : Tracks g s' where
  count := by
    rw [hcount, hconn]
    exact h.count
  maxRequests := hmax.trans h.maxRequests
  timeout := htimeout.trans h.timeout
  bounds := h.bounds
  last := by
    rw [htimer, hconn]
    exact h.last

/-- Nothing has been sent on the connection that is made. -/
theorem Tracks.connected {g : Ledger} {s s' : HttpsClient} (h : Tracks g s)
    (hcount : s'.conn.isSome = true → s'.requestCount = 0)
    (hmax : s'.maxRequests = s.maxRequests) (htimeout : s'.keepaliveTimeout = s.keepaliveTimeout) :
    Tracks (g.step .connected) s' where
  count := hcount
  maxRequests := hmax.trans h.maxRequests
  timeout := htimeout.trans h.timeout
  bounds := h.bounds
  last := nofun

/-- Both judgements agree on the events, and as long as they are positive the client follows. -/
def Follows (g : Ledger) (events : List Event) (s : HttpsClient) : Prop :=
  (Judged Ledger.step Ledger.Respects g events ↔ Judged Ledger.step Ledger.Clear g events) ∧
    (Judged Ledger.step Ledger.Clear g events → Tracks (events.foldl Ledger.step g) s)

theorem Follows.nil {g : Ledger} {s : HttpsClient} (h : Tracks g s) : Follows g [] s := ⟨Iff.rfl, fun _ => h⟩

theorem Follows.cons {g : Ledger} {e : Event} {events : List Event} {s : HttpsClient} (he : g.Respects e ↔ g.Clear e)
    (h : g.Clear e → Follows (g.step e) events s) : Follows g (e :: events) s := by
  constructor
  · constructor
    · rintro ⟨hfirst, hrest⟩
      have hclear := he.1 hfirst
      exact ⟨hclear, (h hclear).1.1 hrest⟩
    · rintro ⟨hfirst, hrest⟩
      exact ⟨he.2 hfirst, (h hfirst).1.2 hrest⟩
  · rintro ⟨hfirst, hrest⟩
    exact (h hfirst).2 hrest

theorem Follows.append {g : Ledger} {a b : List Event} {s s' : HttpsClient} (ha : Follows g a s)
    (hb : Tracks (a.foldl Ledger.step g) s → Follows (a.foldl Ledger.step g) b s') : Follows g (a ++ b) s' := by
  constructor
  · rw [judged_append, judged_append, ha.1]
    exact and_congr_right fun hclear => (hb (ha.2 hclear)).1
  · rw [judged_append, List.foldl_append]
    rintro ⟨hclear, hrest⟩
    exact (hb (ha.2 hclear)).2 hrest

/-- What is used again: a connection that is open, within the timer and the number of requests. -/
theorem isReconnectionRequired_run (s : HttpsClient) : ∃ b env, HttpsClient.isReconnectionRequired s = .ok b { s with env } ∧
    (b = false ↔ s.conn.isSome = true ∧ s.env.tick s.env.reads ≤ s.keepaliveTimer.dueTime ∧ s.requestCount < s.maxRequests) := by
  unfold HttpsClient.isReconnectionRequired
  rw [get_bind]
  by_cases hclosed : s.conn.isNone = true
  · rw [if_pos hclosed]
    refine ⟨true, s.env, rfl, ?_⟩
    rw [Option.isNone_iff_eq_none] at hclosed
    simp [hclosed]
  have hopen : s.conn.isSome = true := by
    rw [Option.isSome_iff_ne_none, Ne, ← Option.isNone_iff_eq_none]
    exact hclosed
  have htick : HttpsClient.onEnv s.keepaliveTimer.isElapsed s =
      .ok (decide (s.keepaliveTimer.dueTime < s.env.tick s.env.reads)) { s with env := { s.env with reads := s.env.reads + 1 } } :=
    rfl
  rw [if_neg hclosed, bind_ok htick]
  by_cases helapsed : s.keepaliveTimer.dueTime < s.env.tick s.env.reads
  · rw [decide_eq_true helapsed, if_pos rfl]
    refine ⟨true, _, rfl, ?_⟩
    simp only [Bool.true_eq_false, false_iff]
    omega
  · rw [decide_eq_false helapsed, if_neg Bool.false_ne_true]
    refine ⟨_, _, rfl, ?_⟩
    rw [decide_eq_false_iff_not, not_le]
    exact ⟨fun h => ⟨hopen, not_lt.1 helapsed, h⟩, fun h => h.2.2⟩

/-- The judgements agree on a call: its time and the counter decide about the connection as the ledger does. -/
theorem respects_call_iff {g : Ledger} {s : HttpsClient} (h : Tracks g s) {now : Nat} {reused : Bool}
    (hreused : reused = true ↔ s.conn.isSome = true ∧ now ≤ s.keepaliveTimer.dueTime ∧ s.requestCount < s.maxRequests) :
    g.Respects (.call now reused) ↔ g.Clear (.call now reused) := by
  rw [h.maxRequests] at hreused
  unfold Ledger.Respects Ledger.Clear
  simp only
  rw [hreused]
  constructor
  · rintro hrespects ⟨hsent, l, hl, hover, hwithin⟩
    obtain ⟨hsome, hdue⟩ := h.last l hl
    have hnow := (hrespects ⟨hsome, by omega, by rw [h.count hsome]; exact hsent⟩).2 l hl
    omega
  · rintro hclear ⟨hsome, hnow, hsent⟩
    rw [h.count hsome] at hsent
    refine ⟨hsent, fun l hl => ?_⟩
    obtain ⟨-, hdue⟩ := h.last l hl
    by_contra hover
    exact hclear ⟨hsent, l, hl, by omega, by omega⟩

/-- The client follows, on a connection that is open. -/
def TracksOpen (g : Ledger) (s : HttpsClient) : Prop := Tracks g s ∧ s.conn.isSome = true

/-- A request that is sent counts, and starts the timer. -/
theorem spec_sendRequest_tracks {g : Ledger} (request : Request) (cookies : Cookies) :
    Spec (TracksOpen g) (HttpsClient.sendRequest request cookies)
      (fun _ s => TracksOpen (g.step (.sent (lastTick s))) s) (fun _ s => Tracks g s) := by
  have hsend : Keeps (TracksOpen g) (HttpsClient.send request cookies) := by
    refine keeps_send_of (fun s env hs => ⟨hs.1.frame rfl rfl rfl rfl rfl, hs.2⟩) (fun s outgoing written hs => ?_) request cookies
    have hopen : (s.conn.map fun conn => { conn with outgoing }).isSome = true := by rw [Option.isSome_map, hs.2]
    exact ⟨hs.1.frame rfl rfl rfl rfl (hopen.trans hs.2.symm), hopen⟩
  refine Spec.bind (hsend.consequence (fun _ h => h) (fun _ _ h => h) fun _ _ h => h.1) fun _ => ?_
  rintro s ⟨htracks, hopen⟩
  have hbounds := htracks.bounds
  have htimeout := htracks.timeout
  refine ⟨?_, hopen⟩
  exact {
    count := by
      intro _
      show s.requestCount + 1 = ((g.sent + 1 : Nat) : Int)
      rw [htracks.count hopen]
      omega
    maxRequests := htracks.maxRequests
    timeout := htimeout
    bounds := hbounds
    last := by
      rintro l ⟨⟩
      refine ⟨hopen, ?_⟩
      -- the product is below 2^32, so nothing is cut off
      show ((s.env.tick s.env.reads + (s.keepaliveTimeout * 1000 % 2 ^ 32).toNat : Nat) : Int) =
        (s.env.tick (s.env.reads + 1 - 1) : Int) + g.timeout * 1000
      rw [htimeout, Nat.add_sub_cancel]
      omega }

/-- What an answer announces is taken over. -/
theorem recvAnswer_follows {g : Ledger} (lib : DateLib) (zlib : Zlib) (answer : Answer) {s : HttpsClient} (h : Tracks g s) :
    match HttpsClient.recvAnswer lib zlib answer s with
    | .ok answer s' => Follows g (announcedBy answer) s'
    | .error _ s' => Tracks g s' := by
  have hreceive : Keeps (Tracks g) (HttpsClient.receive answer.clear (Answer.recv lib zlib)) := by
    intro s h
    unfold HttpsClient.receive
    simp only
    cases Answer.recv lib zlib { answer := answer.clear, incoming := connIncoming s.conn, env := s.env } with
    | ok a r => exact h.frame rfl rfl rfl rfl Option.isSome_map
    | error e r => exact h.frame rfl rfl rfl rfl Option.isSome_map
  have h := hreceive s h
  unfold HttpsClient.recvAnswer
  cases hrun : HttpsClient.receive answer.clear (Answer.recv lib zlib) s with
  | error e t =>
    rw [hrun] at h
    rw [bind_error hrun]
    exact h
  | ok v t =>
    obtain ⟨u, received⟩ := v
    rw [hrun] at h
    rw [bind_ok hrun]
    have h : Tracks g t := h
    simp only
    cases hparams : HttpsClient.keepAliveParams received.headers with
    | error e => exact h
    | ok params =>
      obtain ⟨maxRequests, timeout⟩ := params
      show Follows g (announcedBy received) _
      unfold announcedBy
      rw [hparams]
      have hfits : g.Respects (.announced maxRequests timeout) ↔ g.Clear (.announced maxRequests timeout) := by
        unfold Ledger.Respects Ledger.Clear
        simp only
        omega
      refine Follows.cons hfits fun hclear => Follows.nil ?_
      have hclear : timeout ≤ 2147483 := hclear
      exact {
        count := h.count
        maxRequests := rfl
        timeout := rfl
        bounds := ⟨Int.le_max_left 0 _, Int.max_le.2 ⟨by decide, hclear⟩⟩
        last := h.last }

/-- A connection that is made anew has sent nothing. -/
theorem spec_connect_tracks {g : Ledger} : Spec (Tracks g) HttpsClient.connect
    (fun _ s => TracksOpen (g.step .connected) s) (fun _ s => Tracks (g.step .connected) s) := by
  intro s h
  -- the counter is set before the socket is opened
  let I (t : HttpsClient) : Prop :=
    t.requestCount = 0 ∧ t.maxRequests = s.maxRequests ∧ t.keepaliveTimeout = s.keepaliveTimeout
  have hreset : Spec (fun t => t = s) HttpsClient.connect (fun _ => I) (fun _ => I) := by
    rintro t rfl
    exact keeps_dial_of (I := I) (fun _ _ _ ht => ht) _ ⟨rfl, rfl, rfl⟩
  have htracks : Tracks (g.step .connected) (endState (HttpsClient.connect s)) := by
    obtain ⟨hcount, hmax, htimeout⟩ := hreset.endState rfl
    exact h.connected (fun _ => hcount) hmax htimeout
  have hopen := spec_connect (fun _ => True) s.written s ⟨[], (List.append_nil _).symm, nofun⟩
  cases hrun : HttpsClient.connect s with
  | error e t =>
    rw [hrun] at htracks
    exact htracks
  | ok u t =>
    rw [hrun] at htracks hopen
    obtain ⟨-, conn, hconn, -⟩ := hopen
    exact ⟨htracks, by rw [hconn]; rfl⟩

/-! ## Calls -/

section Calls

variable {p : Portal} {g : Ledger} {s : FirewallClient}

/-- An exchange goes over the connection that is open. -/
theorem exchange_follows (request : Request) (answer : Answer) (h : TracksOpen g s.https) :
    Follows g (exchangeEvents p request answer s) (endState (FirewallClient.exchange p request answer s)).https := by
  have hsend := spec_sendRequest_tracks request s.cookieJar s.https h
  unfold FirewallClient.exchange exchangeEvents
  rw [get_bind]
  cases hrun : HttpsClient.sendRequest request s.cookieJar s.https with
  | error e https =>
    rw [hrun] at hsend
    rcases attempt_error hrun with hattempt | hattempt
    · rw [bind_ok hattempt, hattempt]
      exact .nil hsend
    · rw [bind_error hattempt, hattempt]
      exact .nil hsend
  | ok u https =>
    rw [hrun] at hsend
    rw [bind_ok (attempt_ok hrun), attempt_ok hrun]
    refine Follows.cons Iff.rfl fun _ => ?_
    have hrecv := recvAnswer_follows p.lib p.zlib answer hsend.1
    simp only
    cases hanswer : HttpsClient.recvAnswer p.lib p.zlib answer https with
    | error e https' =>
      rw [hanswer] at hrecv
      rcases attempt_error (s := { s with https }) hanswer with hattempt | hattempt
      · rw [hattempt]
        exact .nil hrecv
      · rw [hattempt]
        exact .nil hrecv
    | ok received https' =>
      rw [hanswer] at hrecv
      rw [attempt_ok (s := { s with https }) hanswer]
      exact hrecv

/-- A reconnection leaves an open connection, on which nothing was sent, or fails. -/
theorem spec_reconnect_tracks : Spec (fun s => Tracks g s.https) (FirewallClient.reconnect p)
    (fun b s => Tracks (g.step .connected) s.https ∧ (b = true → s.https.conn.isSome = true))
    (fun _ s => Tracks (g.step .connected) s.https) := by
  refine Spec.bind (J := fun _ s => Tracks (g.step .connected) s.https) (fun s h => h.connected nofun rfl rfl) fun _ => ?_
  intro s h
  have hconnect := spec_connect_tracks s.https h
  cases hrun : HttpsClient.connect s.https with
  | error e https =>
    rw [hrun] at hconnect
    rcases attempt_error hrun with hattempt | hattempt
    · rw [bind_ok hattempt]
      exact ⟨hconnect, nofun⟩
    · rw [bind_error hattempt]
      exact hconnect
  | ok u https =>
    rw [hrun] at hconnect
    rw [bind_ok (attempt_ok hrun)]
    exact ⟨hconnect.1, fun _ => hconnect.2⟩

theorem sendAndReceive_follows (request : Request) (answer : Answer) (h : Tracks g s.https) :
    Follows g (callEvents p request answer s) (endState (FirewallClient.sendAndReceive p request answer s)).https := by
  obtain ⟨required, env, hrun, hrequired⟩ := isReconnectionRequired_run s.https
  have hcheck : FirewallClient.onHttps HttpsClient.isReconnectionRequired s = _ := zoom_ok hrun
  have hframe : Tracks g { s.https with env } := h.frame rfl rfl rfl rfl rfl
  have hreused : (!required) = true ↔ s.https.conn.isSome = true ∧
      s.https.env.tick s.https.env.reads ≤ s.https.keepaliveTimer.dueTime ∧ s.https.requestCount < s.https.maxRequests := by
    rw [← hrequired, Bool.not_eq_true']
  unfold FirewallClient.sendAndReceive callEvents
  rw [bind_ok hcheck, hcheck]
  refine Follows.cons (respects_call_iff h hreused) fun _ => ?_
  cases required with
  | false =>
    -- the connection is open: it is used again
    exact exchange_follows request answer ⟨hframe, (hrequired.1 rfl).1⟩
  | true =>
    refine Follows.cons Iff.rfl fun _ => ?_
    have hreconnect := spec_reconnect_tracks (p := p) { s with https := { s.https with env } } hframe
    rw [if_pos rfl]
    cases hconnected : FirewallClient.reconnect p { s with https := { s.https with env } } with
    | error e t =>
      rw [hconnected] at hreconnect
      rw [bind_error hconnected]
      exact .nil hreconnect
    | ok connected t =>
      rw [hconnected] at hreconnect
      rw [bind_ok hconnected]
      cases connected with
      | false => exact .nil hreconnect.1
      | true => exact exchange_follows request answer ⟨hreconnect.1, hreconnect.2 rfl⟩

theorem Use.follows (use : Use) (h : Tracks g s.https) : Follows g (use.events p s) (use.run p s).https := by
  cases use with
  | sendAndReceive request answer => exact sendAndReceive_follows request answer h
  | disconnect => exact Follows.cons Iff.rfl fun _ => .nil (h.connected nofun rfl rfl)

theorem useEvents_follows : ∀ {uses : List Use} {g : Ledger} {s : FirewallClient}, Tracks g s.https →
    Follows g (useEvents p uses s) (uses.foldl (fun s use => use.run p s) s).https
  | [], _, _, h => .nil h
  | use :: _, _, _, h => (use.follows h).append fun htracks => useEvents_follows htracks

end Calls

/-- A client that has sent nothing yet, and to which nothing was announced. -/
structure Unused (s : HttpsClient) : Prop where
  count : s.requestCount = 0
  maxRequests : s.maxRequests = defaultMaxRequests
  timeout : s.keepaliveTimeout = defaultKeepAliveTimeout

theorem Unused.new (hostEp : Endpoint) (tlsConfig : TlsConfig) (network : Nat → Dial) (env : Env) :
    Unused (.new hostEp tlsConfig network env) :=
  ⟨rfl, rfl, rfl⟩

theorem Unused.tracks {s : HttpsClient} (h : Unused s) : Tracks .start s :=
  ⟨fun _ => h.count, h.maxRequests, h.timeout, by decide, nofun⟩

/-- In every run of a client, connections are used again within what was announced last, and no time-out overflows,
exactly when no request comes between a shorter time-out that was announced and the one before it, and no announced
time-out has more than 2147483 seconds. -/
theorem keepAlive_respected_iff (p : Portal) {s : FirewallClient} (h : Unused s.https) (uses : List Use) :
    Judged Ledger.step Ledger.Respects .start (useEvents p uses s) ↔
      Judged Ledger.step Ledger.Clear .start (useEvents p uses s) :=
  (useEvents_follows h.tracks).1

/-- A client with a recorded certificate, of such a server; its clock moves on by a second with every reading. -/
def FirewallClient.ticking (answers : List String) : FirewallClient :=
  let s := FirewallClient.facing answers
  { s with peerCrtDigest := [1], https := { s.https with env := { Env.still with tick := fun k => 1000 * k } } }

/-- A page, whose answer announces that time-out. -/
def page (timeout : String) : String :=
  "HTTP/1.1 200 OK\r\nKeep-Alive: timeout=" ++ timeout ++ "\r\nContent-Length: 0\r\n\r\n"

/-- Requests for a page, one after the other. -/
def twice : List Use :=
  let request := FirewallClient.buildRequest { hostname := ascii "fw", port := 443 } Request.getVerb
    { scheme := ascii "https", authority := ascii "fw:443", path := ascii "/", query := [], fragment := [] } [] .empty
  [.sendAndReceive request .new, .sendAndReceive request .new]

theorem unused_ticking (answers : List String) : Unused (FirewallClient.ticking answers).https := ⟨rfl, rfl, rfl⟩

theorem keepAlive_respected_twice :
    Judged Ledger.step Ledger.Respects .start (useEvents .plain twice (.ticking [page "60", page "60"])) :=
  (keepAlive_respected_iff .plain (unused_ticking _) twice).2 (by decide +kernel)

/-- The second request comes three seconds after the first, whose answer has announced one second. -/
theorem keepAlive_shortened :
    ¬ Judged Ledger.step Ledger.Respects .start (useEvents .plain twice (.ticking [page "1", page "1"])) := by
  decide +kernel

end FortiRdp.Fw
