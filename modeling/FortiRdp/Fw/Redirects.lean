/-
Redirects. `send_request` follows the `Location` of an answer, whatever host it names, with a URL of its own host:
only the path and the query are taken over. Each request spends one of those that are allowed.
-/
import FortiRdp.Fw.CookieJar
import FortiRdp.Fw.Sessions

namespace FortiRdp.Fw

open Util Net Http Run

/-- The answer sends the client on. -/
def Redirects (answer : Answer) : Prop :=
  FirewallClient.isRedirect answer.statusCode = true ∧ (answer.headers.getStr (ascii "Location")).isSome = true

instance (answer : Answer) : Decidable (Redirects answer) := inferInstanceAs (Decidable (_ ∧ _))

/-- The answer to a request leads to the next one, which starts in the state that the first has left. -/
def Asked.LeadsTo (p : Portal) (r r' : Asked) : Prop := ∃ answer location, r.result p = .ok (some answer) r'.state ∧
  FirewallClient.isRedirect answer.statusCode = true ∧ answer.headers.getStr (ascii "Location") = some location ∧
  r'.state.https.makeUrl (Url.ofBytes location).path (Url.ofBytes location).query = .ok r'.call.url ∧
  r'.call = { r.call with url := r'.call.url, answer }

section Redirects

variable {p : Portal}

/-- The host of the client stays as it is. -/
theorem keeps_hostEp (hostEp : Endpoint) (call : FirewallClient.Call) :
    Keeps (fun s : FirewallClient => s.https.hostEp = hostEp) (FirewallClient.doRequest p call) := by
  have hindifferent : Indifferent fun s : FirewallClient => s.https.hostEp = hostEp := ⟨fun _ _ h => h, fun _ _ h => h⟩
  have hrequired : Keeps (fun s : HttpsClient => s.hostEp = hostEp) HttpsClient.isReconnectionRequired :=
    keeps_isReconnectionRequired_of fun _ _ h => h
  have hconnect : Keeps (fun s : HttpsClient => s.hostEp = hostEp) HttpsClient.connect :=
    keeps_connect_of (fun _ _ _ h => h) (fun _ h => h) fun _ _ _ h => h
  have hsend : ∀ request cookies, Keeps (fun s : HttpsClient => s.hostEp = hostEp) (HttpsClient.sendRequest request cookies) :=
    fun request cookies => Keeps.bind (keeps_send_of (fun _ _ h => h) (fun _ _ _ h => h) request cookies) fun _ =>
      Keeps.bind (Keeps.modify fun _ h => h) fun _ => keeps_startKeepaliveTimer fun _ _ _ h => h
  have hrecv : ∀ answer, Keeps (fun s : HttpsClient => s.hostEp = hostEp) (HttpsClient.recvAnswer p.lib p.zlib answer) :=
    keeps_recvAnswer_of (fun _ _ _ h => h) (fun _ _ _ h => h) p.lib p.zlib
  have hdisconnect : Keeps (fun s : FirewallClient => s.https.hostEp = hostEp) (FirewallClient.onHttps HttpsClient.disconnect) :=
    keeps_onHttps fun _ h => h
  have hsendAndReceive : ∀ request answer,
      Keeps (fun s : FirewallClient => s.https.hostEp = hostEp) (FirewallClient.sendAndReceive p request answer) := by
    apply keeps_sendAndReceive_of
    · exact keeps_onHttps fun t h => hrequired.endState h
    · exact keeps_reconnect hdisconnect (keeps_attempt fun t h => hconnect.endState h)
    · exact fun request cookies => keeps_attempt fun t h => (hsend request cookies).endState h
    · exact fun answer => keeps_attempt fun t h => (hrecv answer).endState h
  refine Keeps.bind Keeps.get fun s => Keeps.bind (hsendAndReceive _ _) fun answer => ?_
  cases answer with
  | none => exact Keeps.bind hdisconnect fun _ => Keeps.pure _
  | some answer => exact Keeps.bind (keeps_forM (hindifferent.keeps_storeCookie call.url) _) fun _ => Keeps.pure _

/-- One request: it decides, or its answer sends the client on with one request less. -/
theorem sendRequest_step (p : Portal) (allowed : Nat) (source : Source) (call : FirewallClient.Call) (s : FirewallClient) :
    match FirewallClient.doRequest p call s with
    | .error e t => requestsFrom p (allowed + 1) source call s = [{ source, call, state := s }] ∧
        FirewallClient.sendRequest p (allowed + 1) call s = .error e t
    | .ok none t => requestsFrom p (allowed + 1) source call s = [{ source, call, state := s }] ∧
        FirewallClient.sendRequest p (allowed + 1) call s = .ok none t
    | .ok (some answer) t =>
      (¬ Redirects answer ∧ requestsFrom p (allowed + 1) source call s = [{ source, call, state := s }] ∧
        FirewallClient.sendRequest p (allowed + 1) call s = .ok (some answer) t) ∨
      ∃ location url, FirewallClient.isRedirect answer.statusCode = true ∧
        answer.headers.getStr (ascii "Location") = some location ∧
        t.https.makeUrl (Url.ofBytes location).path (Url.ofBytes location).query = .ok url ∧
        requestsFrom p (allowed + 1) source call s =
          { source, call, state := s } :: requestsFrom p allowed (.location location) { call with url, answer } t ∧
        FirewallClient.sendRequest p (allowed + 1) call s = FirewallClient.sendRequest p allowed { call with url, answer } t := by
  rw [requestsFrom, FirewallClient.sendRequest]
  cases hrun : FirewallClient.doRequest p call s with
  | error e t => exact ⟨rfl, bind_error hrun⟩
  | ok answer t =>
    rw [bind_ok hrun]
    cases answer with
    | none => exact ⟨rfl, rfl⟩
    | some answer =>
      unfold onReturn Redirects
      simp only
      by_cases hstatus : FirewallClient.isRedirect answer.statusCode = true
      swap
      · rw [if_neg hstatus, if_neg hstatus]
        exact .inl ⟨fun h => hstatus h.1, rfl, rfl⟩
      rw [if_pos hstatus, if_pos hstatus]
      cases hlocation : answer.headers.getStr (ascii "Location") with
      | none => exact .inl ⟨fun h => absurd h.2 Bool.false_ne_true, rfl, rfl⟩
      | some location =>
        obtain ⟨url, hurl⟩ : ∃ url, t.https.makeUrl (Url.ofBytes location).path (Url.ofBytes location).query = .ok url :=
          ⟨_, Url.ofParts_eq _ _ _ _ _⟩
        refine .inr ⟨location, url, hstatus, rfl, hurl, ?_, except_bind hurl _ t⟩
        simp only
        rw [hurl]
        rfl

/-- The scheme and the authority of the client. -/
def IsOwn (hostEp : Endpoint) (url : Url) : Prop := url.scheme = ascii "https" ∧ url.authority = trimmed hostEp.toBytes

theorem isOwn_makeUrl {s : HttpsClient} {path query : Bytes} {url : Url} (h : s.makeUrl path query = .ok url) :
    IsOwn s.hostEp url := by
  have hscheme : trimmed (ascii "https") = ascii "https" := by decide
  unfold HttpsClient.makeUrl at h
  rw [Url.ofParts_eq, hscheme] at h
  cases h
  exact ⟨rfl, rfl⟩

/-- The requests follow one another, each with the same verb, body and headers, to the own host; the last one decides,
unless no more are allowed. -/
structure Chain (p : Portal) (allowed : Nat) (call : FirewallClient.Call) (s : FirewallClient) (asked : List Asked)
    (result : EStateM.Result Exn FirewallClient (Option Answer)) : Prop where
  first : ∃ r, asked.head? = some r ∧ r.call = call ∧ r.state = s
  leads : asked.IsChain (Asked.LeadsTo p)
  bounded : asked.length ≤ allowed
  same : ∀ r ∈ asked, r.call.verb = call.verb ∧ r.call.body = call.body ∧ r.call.headers = call.headers
  own : ∀ r ∈ asked, IsOwn s.https.hostEp r.call.url
  ends : ∃ last, asked.getLast? = some last ∧
    match last.result p with
    | .error e t => result = .error e t
    | .ok none t => result = .ok none t
    | .ok (some answer) t =>
      if Redirects answer then asked.length = allowed ∧ result = .ok none t else result = .ok (some answer) t

/-- A request that is the last. -/
theorem Chain.single {allowed : Nat} {source : Source} {call : FirewallClient.Call} {s : FirewallClient}
    {result : EStateM.Result Exn FirewallClient (Option Answer)} (hallowed : 1 ≤ allowed) (howns : IsOwn s.https.hostEp call.url)
    (hends : match FirewallClient.doRequest p call s with
      | .error e t => result = .error e t
      | .ok none t => result = .ok none t
      | .ok (some answer) t => if Redirects answer then 1 = allowed ∧ result = .ok none t else result = .ok (some answer) t) :
    Chain p allowed call s [{ source, call, state := s }] result where
  first := ⟨_, rfl, rfl, rfl⟩
  leads := .singleton _
  bounded := hallowed
  same := by
    intro r hr
    obtain rfl := List.mem_singleton.1 hr
    exact ⟨rfl, rfl, rfl⟩
  own := by
    intro r hr
    obtain rfl := List.mem_singleton.1 hr
    exact howns
  ends := ⟨_, rfl, hends⟩

/-- A request that leads to others. -/
theorem Chain.cons {allowed : Nat} {source : Source} {call : FirewallClient.Call} {s t : FirewallClient} {answer : Answer}
    {location : Bytes} {url : Url} {asked : List Asked} {result : EStateM.Result Exn FirewallClient (Option Answer)}
    (howns : IsOwn s.https.hostEp call.url) (hrun : FirewallClient.doRequest p call s = .ok (some answer) t)
    (hstatus : FirewallClient.isRedirect answer.statusCode = true)
    (hlocation : answer.headers.getStr (ascii "Location") = some location)
    (hurl : t.https.makeUrl (Url.ofBytes location).path (Url.ofBytes location).query = .ok url)
    (h : Chain p allowed { call with url, answer } t asked result) :
    Chain p (allowed + 1) call s ({ source, call, state := s } :: asked) result := by
  have hhost : t.https.hostEp = s.https.hostEp := by
    have hkeep := (keeps_hostEp (p := p) s.https.hostEp call).endState (s := s) rfl
    rwa [hrun] at hkeep
  obtain ⟨r', hfirst, hcall, hstate⟩ := h.first
  exact {
    first := ⟨_, rfl, rfl, rfl⟩
    leads := by
      refine List.isChain_cons.2 ⟨?_, h.leads⟩
      intro r hr
      rw [hfirst] at hr
      cases hr
      refine ⟨answer, location, ?_, hstatus, hlocation, ?_, ?_⟩
      · rw [hstate]
        exact hrun
      · rw [hstate, hcall]
        exact hurl
      · rw [hcall]
    bounded := Nat.succ_le_succ h.bounded
    same := by
      intro r hr
      rcases List.mem_cons.1 hr with rfl | hr
      · exact ⟨rfl, rfl, rfl⟩
      · exact h.same r hr
    own := by
      intro r hr
      rcases List.mem_cons.1 hr with rfl | hr
      · exact howns
      · rw [← hhost]
        exact h.own r hr
    ends := by
      obtain ⟨last, hlast, hends⟩ := h.ends
      refine ⟨last, ?_, ?_⟩
      · rw [List.getLast?_cons, hlast]
        rfl
      · simp only [List.length_cons, Nat.add_right_cancel_iff]
        exact hends }

/-- The chain goes on behind an answer that redirects, and ends at every other one. -/
theorem sendRequest_chain {allowed : Nat} {source : Source} {call : FirewallClient.Call} {s : FirewallClient}
    (howns : IsOwn s.https.hostEp call.url)
    (hnext : ∀ source call t, IsOwn t.https.hostEp call.url → 0 < allowed →
      Chain p allowed call t (requestsFrom p allowed source call t) (FirewallClient.sendRequest p allowed call t)) :
    Chain p (allowed + 1) call s (requestsFrom p (allowed + 1) source call s)
      (FirewallClient.sendRequest p (allowed + 1) call s) := by
  have hpos : 1 ≤ allowed + 1 := Nat.le_add_left 1 allowed
  have hstep := sendRequest_step p allowed source call s
  cases hrun : FirewallClient.doRequest p call s with
  | error e t =>
    rw [hrun] at hstep
    rw [hstep.1, hstep.2]
    exact .single hpos howns (by rw [hrun])
  | ok answer t =>
    rw [hrun] at hstep
    cases answer with
    | none =>
      rw [hstep.1, hstep.2]
      exact .single hpos howns (by rw [hrun])
    | some answer =>
      rcases hstep with ⟨hstays, hasked, hsent⟩ | ⟨location, url, hstatus, hlocation, hurl, hasked, hsent⟩
      · rw [hasked, hsent]
        refine .single hpos howns ?_
        rw [hrun]
        exact (if_neg hstays).mpr rfl
      rw [hasked, hsent]
      rcases Nat.eq_zero_or_pos allowed with rfl | hmore
      · -- no more requests are allowed
        refine .single hpos howns ?_
        have hredirects : Redirects answer := ⟨hstatus, by rw [hlocation]; rfl⟩
        rw [hrun]
        exact (if_pos hredirects).mpr ⟨rfl, rfl⟩
      · exact .cons howns hrun hstatus hlocation hurl (hnext _ _ t (isOwn_makeUrl hurl) hmore)

end Redirects

end FortiRdp.Fw
