/-
The parser under the tunneler: `PPInterface::recv` gives each chunk of the TLS context to `pppossl_input`,
and a chunk that it refuses is the last one.
-/
import FortiRdp.Net.ParserSafety
import FortiRdp.Net.TunnelInput

namespace FortiRdp.Net

open FortiRdp.Lwip FortiRdp.Util FortiRdp.Run

def PppErr.code : PppErr → Int
  | .pppErrNone => 0
  | .pppErrProtocol => 8
  | .pppErrAlloc => 4

theorem PppErr.code_eq_zero {err : PppErr} : err.code = 0 ↔ err = .pppErrNone := by
  cases err <;> decide

/-- `pppossl_destroy`: the pbuf of an unfinished frame is freed. -/
def ppposslDestroy (w : Input) : Input :=
  { w with
    inp := { w.inp with data := none }
    log := w.log ++ (w.inp.data.map fun d => .pbufFree d.1).toList }

/-- The tunneler, its TLS context and its parser, with the calls of `pppossl_input` and their answers. -/
structure PppTunneler where
  tls : TlsTunneler
  parser : Input
  calls : List (Bytes × PppErr)
  deriving DecidableEq, Repr

def PppTunneler.init (maxClients : Nat) (hostname : Bytes) : PppTunneler :=
  { tls := .init maxClients hostname, parser := .zero, calls := [] }

inductive PppTnAction
  | recv
  /-- Any other action of the tunneler, of the peer or of the network. -/
  | step (a : TlsTnAction)

/-- `Tunneler::run` down to the parser. -/
def pppTunneler (alloc : Nat → Alloc) : Machine PppTunneler PppTnAction
  | t, .recv =>
    let (status, d, _) := tlsRecvData t.tls.pp.ssl recvSize
    if t.tls.tn.reads = true ∧ status.code = .netctxRcvOk then
      match ppposslInput alloc t.parser d with
      | none => none
      | some (err, w) =>
        (tlsTunneler t.tls (.recv err.code)).map fun tls => { tls := tls, parser := w, calls := t.calls ++ [(d, err)] }
    else (tlsTunneler t.tls (.recv 0)).map fun tls => { t with tls := tls }
  | _, .step (.recv _) => none
  | t, .step a => (tlsTunneler t.tls a).map fun tls => { t with tls := tls }

/-! ## The last chunk -/

/-- The parser is where the calls left it, and only the last of them may have been refused, after which the
tunnel is not connected. -/
structure FailStop (alloc : Nat → Alloc) (t : PppTunneler) : Prop where
  parser : feed alloc .zero (t.calls.map Prod.fst) = some (t.calls.map Prod.snd, t.parser)
  stopped : t.tls.tn.tunnelConnected = true → ∀ x ∈ t.calls, x.2 = .pppErrNone
  last : ∀ x ∈ t.calls.dropLast, x.2 = .pppErrNone

section

variable {alloc : Nat → Alloc}

theorem failStop_init (maxClients : Nat) (hostname : Bytes) : FailStop alloc (.init maxClients hostname) where
  parser := rfl
  stopped := fun _ _ hx => nomatch hx
  last := fun _ hx => nomatch hx

theorem feed_cons (w : Input) (s : Bytes) (chunks : List Bytes) : feed alloc w (s :: chunks) =
    (ppposslInput alloc w s).bind fun r => (feed alloc r.2 chunks).map fun q => (r.1 :: q.1, q.2) := by
  simp only [feed, Option.bind_eq_bind, Option.map_eq_bind]
  rfl

theorem feed_snoc : ∀ {chunks : List Bytes} {w w' v : Input} {errs : List PppErr} {s : Bytes} {err : PppErr},
    feed alloc w chunks = some (errs, w') → ppposslInput alloc w' s = some (err, v) →
      feed alloc w (chunks ++ [s]) = some (errs ++ [err], v)
  | [], w, w', v, errs, s, err, h, hs => by
    cases h
    rw [List.nil_append, feed_cons, hs]
    rfl
  | t :: chunks, w, w', v, errs, s, err, h, hs => by
    rw [feed_cons] at h
    obtain ⟨r, hr, h⟩ := Option.bind_eq_some_iff.1 h
    obtain ⟨q, hq, hqs⟩ := Option.map_eq_some_iff.1 h
    cases hqs
    rw [List.cons_append, feed_cons, hr, Option.bind_some, feed_snoc hq hs]
    rfl

/-- The tunnel is connected before each step of the tunneler after which it is. -/
theorem tls_lost {t t' : TlsTunneler} {a : TlsTnAction} (h : tlsTunneler t a = some t')
    (hc : t'.tn.tunnelConnected = true) : t.tn.tunnelConnected = true := by
  cases a with
  | arrive rec => cases h; exact hc
  | arrivePart => cases h; exact hc
  | recv pppRc =>
    simp only [tlsTunneler] at h
    split at h
    · obtain ⟨tn, htn, rfl⟩ := Option.map_eq_some_iff.1 h
      exact tunnel_lost htn hc
    · obtain ⟨tn, htn, rfl⟩ := Option.map_eq_some_iff.1 h
      exact tunnel_lost htn hc
  | step a =>
    obtain ⟨tn, htn, rfl⟩ := step_tn h
    exact tunnel_lost htn hc

/-- A chunk that the parser refuses loses the tunnel. -/
theorem refused_loses {t t' : TlsTunneler} {pppRc : Int} (hreads : t.tn.reads = true)
    (hok : (tlsRecvData t.pp.ssl recvSize).1.code = .netctxRcvOk) (hrc : pppRc ≠ 0)
    (h : tlsTunneler t (.recv pppRc) = some t') : t'.tn.tunnelConnected = false := by
  -- the answer of the parser is the answer of `recv`
  have hrecv : (t.pp.recv pppRc).1 = false := by
    unfold PPInput.recv
    generalize tlsRecvData t.pp.ssl recvSize = out at hok
    obtain ⟨status, d, ssl⟩ := out
    simp only at hok ⊢
    rw [hok]
    exact beq_eq_false_iff_ne.2 hrc
  simp only [tlsTunneler] at h
  rw [if_pos hreads] at h
  obtain ⟨tn, htn, rfl⟩ := Option.map_eq_some_iff.1 h
  rw [hrecv] at htn
  exact recv_loses hreads htn

/-- A step that gives nothing to the parser. -/
theorem failStop_tls {t : PppTunneler} {tls : TlsTunneler} {a : TlsTnAction} (hi : FailStop alloc t)
    (h : tlsTunneler t.tls a = some tls) : FailStop alloc { t with tls := tls } where
  parser := hi.parser
  stopped := fun hc => hi.stopped (tls_lost h hc)
  last := hi.last

/-- What a step of the tunneler does to the parser: nothing, or one call while the tunnel is connected. -/
theorem pppTunneler_step {t t' : PppTunneler} {a : PppTnAction} (h : pppTunneler alloc t a = some t') :
    (∃ a tls, tlsTunneler t.tls a = some tls ∧ t' = { t with tls := tls }) ∨
      ∃ d err w tls, t.tls.tn.reads = true ∧ (tlsRecvData t.tls.pp.ssl recvSize).1.code = .netctxRcvOk ∧
        ppposslInput alloc t.parser d = some (err, w) ∧ tlsTunneler t.tls (.recv err.code) = some tls ∧
        t' = { tls := tls, parser := w, calls := t.calls ++ [(d, err)] } := by
  cases a with
  | recv =>
    simp only [pppTunneler] at h
    split at h
    · rename_i hread
      split at h
      · cases h
      · rename_i err w hcall
        obtain ⟨tls, htls, rfl⟩ := Option.map_eq_some_iff.1 h
        exact .inr ⟨_, err, w, tls, hread.1, hread.2, hcall, htls, rfl⟩
    · obtain ⟨tls, htls, rfl⟩ := Option.map_eq_some_iff.1 h
      exact .inl ⟨_, tls, htls, rfl⟩
  | step a =>
    cases a with
    | recv pppRc => cases h
    | _ =>
      simp only [pppTunneler] at h
      obtain ⟨tls, htls, rfl⟩ := Option.map_eq_some_iff.1 h
      exact .inl ⟨_, tls, htls, rfl⟩

theorem failStop_step (t : PppTunneler) (a : PppTnAction) (t' : PppTunneler) (hi : FailStop alloc t)
    (h : pppTunneler alloc t a = some t') : FailStop alloc t' := by
  rcases pppTunneler_step h with ⟨a, tls, htls, rfl⟩ | ⟨d, err, w, tls, hreads, hok, hcall, htls, rfl⟩
  · exact failStop_tls hi htls
  -- the tunnel is connected at the call, so no call before it was refused
  have hnone := hi.stopped (reads_connected hreads)
  refine ⟨?_, ?_, ?_⟩
  · rw [List.map_append, List.map_append]
    exact feed_snoc hi.parser hcall
  · intro hc x hx
    rcases List.mem_append.1 hx with hx | hx
    · exact hnone x hx
    · obtain rfl := List.mem_singleton.1 hx
      by_contra hne
      have hlost := refused_loses hreads hok (fun h0 => hne (PppErr.code_eq_zero.1 h0)) htls
      rw [hlost] at hc
      cases hc
  · rw [List.dropLast_concat]
    exact hnone

/-- A pbuf is given away or freed by the time the parser is destroyed. -/
theorem destroy_count (w : Input) (id : Nat) :
    ((ppposslDestroy w).log.map PbufEvent.id).count id = w.pbufs.count id := by
  unfold ppposslDestroy Input.pbufs
  apply List.Perm.count_eq
  cases w.inp.data with
  | none => simp
  | some d =>
    simp only [Option.map_some, Option.toList_some, List.map_append, List.map_cons, List.map_nil, PbufEvent.id]
    exact List.perm_append_comm

/-- The parser on any bytes, in any chunks, with any answers of the allocator: what it holds between two
passes, where its copies go, that each pbuf is held or passed on once or freed once, and that each payload it
passed on is what followed its header. Each call ends. In the tunneler, no chunk follows one that was refused. -/
theorem pppossl_input_safe (alloc : Nat → Alloc) :
    (∀ as ps, exec (parser alloc) .zero as = some ps →
      (ps.input.inp.state = .ppHeader → ps.input.inp.data = none ∧ ps.input.inp.counter < 6) ∧
      (ps.input.inp.state = .ppData → ∃ id c, ps.input.inp.data = some (id, c) ∧
        id ∉ ps.input.log.map PbufEvent.id ∧ totLen c = load16 ps.input.inp.header 2 ∧ totLen c ≤ 16384 ∧
        ps.input.inp.counter ≤ load16 ps.input.inp.header 2 ∧
        ∀ s : Bytes, pbufTakeAt c (s.take (copyLen ps.input.inp s.length % 65536)) ps.input.inp.counter = (.errMem, c) ∨
          ps.input.inp.counter + copyLen ps.input.inp s.length ≤ (content c).length) ∧
      Accounted alloc ps.input ∧
      (∀ id, ((ppposslDestroy ps.input).log.map PbufEvent.id).count id =
        if id < ps.input.allocs ∧ (alloc id).isSome then 1 else 0) ∧
      (∃ consumed, ps.fed = consumed ++ ps.rest ∧ Streamed ps.input consumed) ∧
      ∀ s, ps.rest = [] → ∃ n err w, ppposslInput alloc ps.input s = some (err, w) ∧
        exec (parser alloc) ps (.call s :: List.replicate n .pass) = some ⟨w, [], ps.fed ++ s⟩) ∧
    ∀ maxClients hostname as t, exec (pppTunneler alloc) (.init maxClients hostname) as = some t →
      feed alloc .zero (t.calls.map Prod.fst) = some (t.calls.map Prod.snd, t.parser) ∧
      ∀ x ∈ t.calls.dropLast, x.2 = .pppErrNone := by
  constructor
  · intro as ps hrun
    have hsafe := exec_inv parserSafe_step parserSafe_zero hrun
    refine ⟨?_, ?_, hsafe.accounted, fun id => (destroy_count ps.input id).trans (hsafe.accounted id),
      hsafe.streamed, ?_⟩
    · intro hstate
      cases hsafe.between with
      | header _ counter _ data => exact ⟨data, counter⟩
      | data state => rw [hstate] at state; cases state
    · intro hstate
      have hcopy := fun id c (hd : ps.input.inp.data = some (id, c)) => copy_inside hsafe.between hd
      have hcount := hsafe.accounted
      cases hsafe.between with
      | header state => rw [hstate] at state; cases state
      | @data id p state len data tot size max counter =>
        refine ⟨id, [p], data, ?_, tot.trans size, tot.trans_le max, by omega, hcopy id [p] data⟩
        -- a pbuf that is held and in the log would be counted twice
        intro hmem
        have hone := hcount id
        unfold Input.pbufs at hone
        rw [data] at hone
        simp only [Option.map_some, Option.toList_some, List.singleton_append, List.count_cons_self] at hone
        have hlog := List.count_pos_iff.2 hmem
        split at hone <;> omega
    · intro s hrest
      obtain ⟨n, err, w, hcall, hpasses⟩ := ppposslInput_passes hsafe.between s (ps.fed ++ s)
      refine ⟨n, err, w, hcall, ?_⟩
      obtain ⟨input, rest, fed⟩ := ps
      obtain rfl : rest = [] := hrest
      exact hpasses
  · intro maxClients hostname as t hrun
    have hstop := exec_inv failStop_step (failStop_init maxClients hostname) hrun
    exact ⟨hstop.parser, hstop.last⟩

/-- A frame of two bytes in two chunks and a header that is refused, under the tunneler. -/
def refusedRun : List PppTnAction :=
  let pass (rec : SslRecord) : List PppTnAction :=
    [.step (.arrive rec), .step (.step (.select ⟨false, true, false, [], []⟩)), .step (.step (.send true)), .recv,
      .step (.step (.accept 0 .errOk true .errOk)), .step (.step (.localIo .eof none [])),
      .step (.step (.forward 0 [] false .errOk)), .step (.step .timersDone), .step (.step .purge), .step (.step .switch)]
  pass (.applicationData [0, 8, 0x50, 0x50, 0, 2, 1]) ++ pass (.applicationData [2, 0, 8, 0x50, 0x50, 1, 2])

theorem pppossl_input_safe_refused :
    let alloc : Nat → Alloc := fun _ => some fun _ => 0
    (∃ ps, exec (parser alloc) .zero [.call [0, 7, 0x50, 0x50, 0, 1, 9], .pass, .pass, .pass, .pass, .pass, .pass, .pass]
        = some ps ∧ passed ps.input = [[⟨[9], 1, 0⟩]] ∧ Accounted alloc ps.input) ∧
      ∃ t, exec (pppTunneler alloc) (.init 1 []) refusedRun = some t ∧
        t.calls.map Prod.snd = [.pppErrNone, .pppErrProtocol] ∧ ∀ x ∈ t.calls.dropLast, x.2 = .pppErrNone := by
  intro alloc
  constructor
  · obtain ⟨ps, hps⟩ : ∃ ps, exec (parser alloc) .zero
        [.call [0, 7, 0x50, 0x50, 0, 1, 9], .pass, .pass, .pass, .pass, .pass, .pass, .pass] = some ps := ⟨_, rfl⟩
    have hacc := ((pppossl_input_safe alloc).1 _ _ hps).2.2.1
    cases hps
    exact ⟨_, rfl, rfl, hacc⟩
  · obtain ⟨t, ht, hp⟩ := Option.any_eq_true _ _ |>.1 (by decide +kernel :
      (exec (pppTunneler fun _ => some fun _ => 0) (.init 1 []) refusedRun).any
        (fun t => decide (t.calls.map Prod.snd = [.pppErrNone, .pppErrProtocol])) = true)
    exact ⟨t, ht, of_decide_eq_true hp, ((pppossl_input_safe alloc).2 1 [] _ _ ht).2⟩

end

end FortiRdp.Net
