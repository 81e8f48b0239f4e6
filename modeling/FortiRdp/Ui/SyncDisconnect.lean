/-
The disconnection (`SyncDisconnect`): a logout from the portal, a wait for the firewall to close the tunnel,
and a `terminate` when it does not. All of that is done only for a client that still holds a session cookie.
The thread of the tunnel runs all the time, so it may take any steps between those of the procedure.
-/
import FortiRdp.Fw.CookieJar
import FortiRdp.Fw.LoginOutcome
import FortiRdp.Net.TunnelerStep

namespace FortiRdp.Ui

open Util Net Http Fw

/-- What the procedure works on, and what the thread of the tunnel does before each of its steps. -/
structure Disconnect where
  portalClient : FirewallClient
  tunnel : Option Tunneler
  moves : List (List TnAction)

abbrev DisconnectM := EStateM Exn Disconnect

namespace SyncDisconnect

/-- The steps that the thread of the tunnel takes; it takes none that is not enabled. -/
def moveTunnel (t : Tunneler) (moves : List TnAction) : Tunneler := (Run.exec tunneler t moves).getD t

/-- The thread of the tunnel runs. -/
def tunnelRuns : DisconnectM Unit := modify fun s =>
  match s.moves with
  | [] => s
  | m :: moves => { s with tunnel := s.tunnel.map (moveTunnel · m), moves }

def onPortalClient {α : Type} (x : FwM α) : DisconnectM α := do
  tunnelRuns
  Run.zoom Disconnect.portalClient (fun portalClient s => { s with portalClient }) x

/-- `_tunnel->wait`: whether the thread has ended. -/
def wait : DisconnectM Bool := do
  tunnelRuns
  pure ((← get).tunnel.any (·.pc == .stopped))

/-- `_tunnel->terminate`. -/
def terminate : DisconnectM Unit := do
  tunnelRuns
  modify fun s => { s with tunnel := s.tunnel.map fun t => { t with terminate := true } }

/-- The waits for the end of the tunnel; a wait that times out is repeated. -/
def waitEnd : Nat → DisconnectM Unit
  | 0 => pure ()
  | n + 1 => do
    if ← wait then pure () else waitEnd n

/-- The logout: whether the firewall has closed the tunnel. -/
def logoutAndWait (p : Portal) : DisconnectM Bool := do
  if ← onPortalClient (FirewallClient.logout p) then
    if (← get).tunnel.isSome then wait else pure true
  else pure false

/-- What `procedure` does for an authenticated client. -/
def stopTunnel (p : Portal) : DisconnectM Bool := do
  let stopped ← logoutAndWait p
  if stopped = false ∧ (← get).tunnel.isSome = true then
    terminate
    waitEnd 5
  pure stopped

/-- `procedure`. -/
def procedure (p : Portal) : DisconnectM Bool := do
  let authenticated ← onPortalClient FirewallClient.isAuthenticated
  let stopped ← (if authenticated then stopTunnel p else pure false : DisconnectM Bool)
  onPortalClient (FirewallClient.onHttps HttpsClient.disconnect)
  pure stopped

end SyncDisconnect

/-! ## The tunnel is looked after -/

/-- There is no tunnel, its thread has ended, or it was told to terminate. -/
def attended (tunnel : Option Tunneler) : Bool := tunnel.all fun t => t.pc == .stopped || t.terminate

theorem attended_some (t : Tunneler) : attended (some t) = true ↔ t.pc = .stopped ∨ t.terminate = true := by
  simp [attended]

theorem switch_terminate (t : Tunneler) : t.switch.terminate = t.terminate := by
  unfold Tunneler.switch
  cases t.state with
  | connecting =>
    simp only
    split
    · rfl
    · split <;> rfl
  | running | closing | disconnecting =>
    simp only
    split <;> rfl
  | stopped => rfl

/-- Once it is told, the tunneler does not forget it. -/
theorem terminate_step {t t' : Tunneler} {a : TnAction} (h : tunneler t a = some t') (ht : t.terminate = true) :
    t'.terminate = true := by
  cases a with
  | terminate =>
    cases h
    rfl
  | lwip i e =>
    simp only [tunneler] at h
    split at h
    · split at h
      · cases h
      · obtain ⟨w, -, rfl⟩ := Option.map_eq_some_iff.1 h
        exact ht
    · cases h
  | ppp if4Up dead | abortTimeout | disconnectTimeout | select r | selectTimeout | selectError | noSelect
  | timersDone | purge | pppClosed | released =>
    simp only [tunneler] at h
    split at h
    · cases h
      first | exact ht | rfl
    · cases h
  | send ok | recv ok =>
    simp only [tunneler] at h
    split at h
    · cases h
      split
      · rfl
      · exact ht
    · cases h
  | accept rcAccept rcQuery newOk rcCon =>
    simp only [tunneler] at h
    split at h
    · cases h
      split <;> exact ht
    · cases h
  | localIo rcv a snd =>
    simp only [tunneler] at h
    split at h
    · split at h
      · cases h
        obtain ⟨fwds, hfwds⟩ := onFwd_eq t _ (.localIo _ _ rcv a snd)
        rw [hfwds]
        exact ht
      · cases h
        exact ht
    · cases h
  | forward sndbuf answers unsent output =>
    simp only [tunneler] at h
    split at h
    · split at h
      · cases h
        obtain ⟨fwds, hfwds⟩ := onFwd_eq t _ (.forwardPass sndbuf answers unsent output)
        rw [hfwds]
        exact ht
      · cases h
        exact ht
    · cases h
  | switch =>
    obtain ⟨-, rfl⟩ := switch_enabled h
    rw [switch_terminate]
    exact ht

/-- A thread that has ended stays so. -/
theorem stopped_step {t t' : Tunneler} {a : TnAction} (h : tunneler t a = some t') (ht : t.pc = .stopped) :
    t'.pc = .stopped := by
  cases a with
  | terminate =>
    cases h
    exact ht
  | lwip i e =>
    simp only [tunneler] at h
    split at h
    · split at h
      · cases h
      · obtain ⟨w, -, rfl⟩ := Option.map_eq_some_iff.1 h
        exact ht
    · cases h
  | ppp if4Up dead =>
    simp only [tunneler] at h
    split at h
    · cases h
      exact ht
    · cases h
  | _ => simp [tunneler, ht] at h

theorem attended_moveTunnel (t : Tunneler) (moves : List TnAction) (h : attended (some t) = true) :
    attended (some (SyncDisconnect.moveTunnel t moves)) = true := by
  unfold SyncDisconnect.moveTunnel
  cases hexec : Run.exec tunneler t moves with
  | none => exact h
  | some t' =>
    refine Run.exec_inv (I := fun t => attended (some t) = true) (fun t a u ht hstep => ?_) h hexec
    rw [attended_some] at ht ⊢
    exact ht.imp (stopped_step hstep) (terminate_step hstep)

namespace SyncDisconnect

/-- The tunnel of the procedure is attended. -/
def Attended (s : Disconnect) : Prop := attended s.tunnel = true

theorem attended_tunnelRuns (s : Disconnect) (h : Attended s) : Attended (match s.moves with
    | [] => s
    | m :: moves => { s with tunnel := s.tunnel.map (moveTunnel · m), moves }) := by
  obtain ⟨portalClient, tunnel, moves⟩ := s
  cases moves with
  | nil => exact h
  | cons m moves =>
    cases tunnel with
    | none => rfl
    | some t => exact attended_moveTunnel t m h

theorem keeps_tunnelRuns : Run.Keeps Attended tunnelRuns := Run.Keeps.modify attended_tunnelRuns

theorem keeps_onPortalClient {α : Type} (x : FwM α) : Run.Keeps Attended (onPortalClient x) :=
  Run.Keeps.bind keeps_tunnelRuns fun _ => Run.Keeps.zoom fun _ _ hs => hs

theorem keeps_wait : Run.Keeps Attended wait :=
  Run.Keeps.bind keeps_tunnelRuns fun _ => Run.Keeps.bind Run.Keeps.get fun _ => Run.Keeps.pure _

theorem keeps_waitEnd : ∀ n, Run.Keeps Attended (waitEnd n)
  | 0 => Run.Keeps.pure ()
  | n + 1 => Run.Keeps.bind keeps_wait fun _ => Run.Keeps.ite (Run.Keeps.pure ()) (keeps_waitEnd n)

/-! ### A client that is authenticated -/

theorem spec_wait : Run.Spec (fun _ => True) wait (fun stopped s => stopped = true → Attended s) (fun _ _ => True) := by
  refine Run.Spec.bind (J := fun _ _ => True) (Run.Spec.modify fun _ _ => trivial) fun _ => ?_
  refine Run.Spec.get_bind fun s₀ => Run.Spec.pure _ ?_
  rintro s ⟨-, rfl⟩ hstopped
  show attended s.tunnel = true
  cases htunnel : s.tunnel with
  | none => rfl
  | some t =>
    rw [htunnel] at hstopped
    exact (attended_some t).2 (.inl (by simpa using hstopped))

theorem spec_terminate : Run.Spec (fun _ => True) terminate (fun _ => Attended) (fun _ _ => True) := by
  refine Run.Spec.bind (J := fun _ _ => True) (Run.Spec.modify fun _ _ => trivial) fun _ => ?_
  refine Run.Spec.modify fun s _ => ?_
  show attended (s.tunnel.map _) = true
  cases s.tunnel with
  | none => rfl
  | some t => exact (attended_some _).2 (.inr rfl)

theorem spec_logoutAndWait (p : Portal) :
    Run.Spec (fun _ => True) (logoutAndWait p) (fun stopped s => stopped = true → Attended s) (fun _ _ => True) := by
  refine Run.Spec.bind (J := fun _ _ => True) ?_ fun loggedOut => ?_
  · intro s _
    cases onPortalClient (FirewallClient.logout p) s <;> trivial
  cases loggedOut with
  | false => exact Run.Spec.pure _ fun s _ h => by cases h
  | true =>
    refine Run.Spec.get_bind fun s₀ => ?_
    cases htunnel : s₀.tunnel with
    | some t => exact spec_wait.consequence (fun _ _ => trivial) (fun _ _ h => h) fun _ _ h => h
    | none =>
      refine Run.Spec.pure _ ?_
      rintro s ⟨-, rfl⟩ -
      show attended s.tunnel = true
      rw [htunnel]
      rfl

/-- After the logout the firewall has closed the tunnel, or the tunnel is told to terminate. -/
theorem spec_stopTunnel (p : Portal) : Run.Spec (fun _ => True) (stopTunnel p) (fun _ => Attended) (fun _ _ => True) := by
  refine Run.Spec.bind (spec_logoutAndWait p) fun stopped => Run.Spec.get_bind fun s₀ => ?_
  split
  · refine Run.Spec.bind (spec_terminate.consequence (fun _ _ => trivial) (fun _ _ h => h) fun _ _ h => h) fun _ => ?_
    refine Run.Spec.bind ?_ fun _ => Run.Spec.pure _ fun _ h => h
    exact (keeps_waitEnd 5).consequence (fun _ h => h) (fun _ _ h => h) fun _ _ _ => trivial
  · rename_i hnot
    refine Run.Spec.pure _ ?_
    rintro s ⟨hs, rfl⟩
    cases stopped with
    | true => exact hs rfl
    | false =>
      show attended s.tunnel = true
      cases htunnel : s.tunnel with
      | none => rfl
      | some t => simp [htunnel] at hnot

/-! ### Any client -/

/-- The client holds a session cookie that has not expired. -/
def Authenticated (s : FirewallClient) : Prop := ∃ cookie, s.cookieJar.get (ascii "SVPNCOOKIE") = some cookie ∧
  cookie.value.text ≠ [] ∧ ¬ cookie.ExpiredAt (s.https.env.now s.https.env.reads)

/-- The client is the same after the tunnel has run. -/
theorem onPortalClient_run {α : Type} {x : FwM α} {s : Disconnect} {a : α} {client : FirewallClient}
    (h : x s.portalClient = .ok a client) :
    ∃ s', onPortalClient x s = .ok a s' ∧ (s.moves = [] → s'.tunnel = s.tunnel ∧ s'.moves = []) := by
  obtain ⟨portalClient, tunnel, moves⟩ := s
  have hzoom (s : Disconnect) (hs : s.portalClient = portalClient) :
      Run.zoom Disconnect.portalClient (fun portalClient s => { s with portalClient }) x s = _ := Run.zoom_ok (hs ▸ h)
  cases moves with
  | nil => exact ⟨_, hzoom { portalClient, tunnel, moves := [] } rfl, fun _ => ⟨rfl, rfl⟩⟩
  | cons m moves => exact ⟨_, hzoom { portalClient, tunnel := tunnel.map (moveTunnel · m), moves } rfl, nofun⟩

/-- Whatever the server answers and the thread of the tunnel does, a disconnection leaves an attended tunnel:
exactly when the client is authenticated, or the tunnel was attended before. -/
theorem procedure_attends_iff (p : Portal) (portalClient : FirewallClient) (tunnel : Option Tunneler) :
    (∀ moves stopped s', procedure p { portalClient, tunnel, moves } = .ok stopped s' → attended s'.tunnel = true) ↔
      Authenticated portalClient ∨ attended tunnel = true := by
  obtain ⟨authenticated, client, hauth, hlogin, -⟩ := isAuthenticated_run portalClient
  have hiff : authenticated = true ↔ Authenticated portalClient := hlogin
  constructor
  · intro h
    by_contra hnot
    obtain ⟨hno, htunnel⟩ := not_or.1 hnot
    obtain rfl : authenticated = false := Bool.eq_false_iff.2 fun hb => hno (hiff.1 hb)
    -- the thread of the tunnel does nothing meanwhile
    obtain ⟨s₁, hfirst, hsame⟩ := onPortalClient_run (s := { portalClient, tunnel, moves := [] }) hauth
    obtain ⟨htunnel₁, hmoves₁⟩ := hsame rfl
    obtain ⟨s₂, hlast, hsame⟩ := onPortalClient_run (s := s₁) (x := FirewallClient.onHttps HttpsClient.disconnect)
      (Run.zoom_ok rfl)
    have hskip : (if false = true then stopTunnel p else pure false : DisconnectM Bool) s₁ = .ok false s₁ := rfl
    have hrun : procedure p { portalClient, tunnel, moves := [] } = .ok false s₂ :=
      (Run.bind_ok hfirst).trans ((Run.bind_ok hskip).trans (Run.bind_ok hlast))
    have hleft := h [] false s₂ hrun
    rw [(hsame hmoves₁).1, htunnel₁] at hleft
    exact htunnel hleft
  · intro h moves stopped s' hrun
    obtain ⟨s₁, hfirst, -⟩ := onPortalClient_run (s := { portalClient, tunnel, moves }) hauth
    obtain ⟨b, t, hb, hrest⟩ := Run.bind_eq_ok hrun
    rw [hfirst] at hb
    cases hb
    obtain ⟨stopped', u, hstop, hend⟩ := Run.bind_eq_ok hrest
    -- the tunnel is attended once the client has been logged out
    have hstopped : attended u.tunnel = true := by
      cases hauthenticated : authenticated with
      | true =>
        rw [hauthenticated] at hstop
        have hspec := spec_stopTunnel p s₁ trivial
        rw [show stopTunnel p s₁ = _ from hstop] at hspec
        exact hspec
      | false =>
        rw [hauthenticated] at hstop
        cases hstop
        have htunnel := h.resolve_left fun ha => by
          rw [hiff.2 ha] at hauthenticated
          cases hauthenticated
        have hkeeps := keeps_onPortalClient FirewallClient.isAuthenticated { portalClient, tunnel, moves } htunnel
        rw [hfirst] at hkeeps
        exact hkeeps
    obtain ⟨_, v, hlast, hpure⟩ := Run.bind_eq_ok hend
    cases hpure
    have hkeeps := keeps_onPortalClient (FirewallClient.onHttps HttpsClient.disconnect) u hstopped
    rw [hlast] at hkeeps
    exact hkeeps

/-- A session cookie of the past. -/
def expiredCookie : Cookie where
  name := ascii "SVPNCOOKIE"
  value := .ofBytes 0 (ascii "1")
  domain := ascii "fw"
  path := ascii "/"
  expires := 100
  secure := true
  httpOnly := true

/-- A client with that cookie. -/
def expiredClient : FirewallClient :=
  { FirewallClient.fresh with
    https := { FirewallClient.fresh.https with env := { Env.still with now := fun _ => 200 } }
    cookieJar := Cookies.empty.add expiredCookie }

/-- When the cookie has expired the procedure leaves a running tunnel alone. -/
theorem procedure_expired : ∃ s', procedure .plain
    { portalClient := expiredClient, tunnel := some (.init 1 (ascii "pc")), moves := [] } = .ok false s' ∧
      attended s'.tunnel = false :=
  ⟨_, rfl, rfl⟩

end SyncDisconnect

end FortiRdp.Ui
