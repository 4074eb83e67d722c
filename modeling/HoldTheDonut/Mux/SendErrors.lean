import HoldTheDonut.Mux.Datagram

/-!
# A datagram that cannot be sent

A socket may refuse a datagram: it is too large, or the socket still has to report that an
earlier one was unreachable.  UDP promises nothing, so nothing is wrong with the session.

The XUDP path ignores the error.  A run of its relay with any set of refused datagrams is the
run in which none is refused, with those datagrams taken out of the log (`run_withoutLost`).
`vision_udp_relay` has a `?` behind its send, and the first refused datagram ends it.  The
comparison is with the relay of a socket that refuses nothing: the two come to a rest in the
same way, with the same events behind them, exactly if no datagram is refused
(`udp_send_errors_iff`).  That the events are compared matters.  The relay of a client that
breaks off fails in any case, but not before it has seen it.
-/

namespace HoldTheDonut
namespace Mux

open Interaction Machine Server Streaming

/-! ## A socket that refuses datagrams -/

/-- The world of a relay, and how many datagrams its socket has been given. -/
structure RefusingWorld where
  udp : UdpWorld
  tries : ℕ

/-- The socket refuses the datagrams of a set, by their number; all else is as before. -/
def RefusingWorld.answer (refuses : ℕ → Bool) :
    (op : Op) → RefusingWorld → Option (Ans op × RefusingWorld)
  | .sendUdp _ dg, w =>
    if refuses w.tries then some (false, ⟨w.udp, w.tries + 1⟩)
    else some (true, ⟨{ w.udp with sent := w.udp.sent ++ [dg] }, w.tries + 1⟩)
  | op, w => (UdpWorld.answer op w.udp).map fun r => (r.1, ⟨r.2, w.tries⟩)

/-- Operations other than a send are answered as before, and send nothing. -/
theorem answer_of_not_send {op : Op} (hop : ∀ target dg, op ≠ .sendUdp target dg)
    (refuses : ℕ → Bool) (u : UdpWorld) (n : ℕ) :
    (RefusingWorld.answer refuses op ⟨u, n⟩ =
      (UdpWorld.answer op u).map fun r => (r.1, ⟨r.2, n⟩)) ∧
    ∀ r, UdpWorld.answer op u = some r → r.2.sent = u.sent := by
  cases op with
  | sendUdp target dg => exact absurd rfl (hop target dg)
  | selectUdp target =>
    refine ⟨rfl, fun r hr => ?_⟩
    rw [UdpWorld.answer] at hr
    split at hr
    · cases hr
    · cases hr
      rfl
  | _ =>
    refine ⟨rfl, fun r hr => ?_⟩
    cases hr <;> rfl

/-- No event comes twice. -/
theorem events_exec_le {α : Type} (p : Handler α) (u : UdpWorld) :
    (exec UdpWorld.answer p u).2.events.length ≤ u.events.length := by
  refine exec_related (R := fun u v => v.events.length ≤ u.events.length)
    (fun _ => le_rfl) (fun _ _ _ h h' => h'.trans h) (fun op u x u' h => ?_) p u
  cases op with
  | selectUdp target =>
    rw [UdpWorld.answer] at h
    split at h
    · cases h
    · next e es hevents =>
      cases h
      rw [hevents]
      exact Nat.le_succ _
  | _ => cases h <;> exact le_rfl

/-- What has been sent stays sent. -/
theorem sent_exec_le {α : Type} (p : Handler α) (u : UdpWorld) :
    u.sent.length ≤ (exec UdpWorld.answer p u).2.sent.length := by
  refine exec_related (R := fun u v => u.sent.length ≤ v.sent.length)
    (fun _ => le_rfl) (fun _ _ _ h h' => h.trans h') (fun op u x u' h => ?_) p u
  by_cases hsend : ∃ target dg, op = .sendUdp target dg
  · obtain ⟨target, dg, rfl⟩ := hsend
    cases h
    rw [List.length_append]
    exact Nat.le_add_right _ _
  · have hop : ∀ target dg, op ≠ .sendUdp target dg := fun target dg h => hsend ⟨target, dg, h⟩
    rw [(answer_of_not_send hop (fun _ => false) u 0).2 _ h]

/-- **Where nothing is refused, nothing differs**, whatever the program. -/
theorem exec_refusing_eq {α : Type} (refuses : ℕ → Bool) (p : Handler α) (u : UdpWorld) (n : ℕ)
    (h : ∀ i, u.sent.length + i < (exec UdpWorld.answer p u).2.sent.length →
      refuses (n + i) = false) :
    ∃ m, exec (RefusingWorld.answer refuses) p ⟨u, n⟩ =
        ((exec UdpWorld.answer p u).1, ⟨(exec UdpWorld.answer p u).2, m⟩) ∧
      m + u.sent.length = n + (exec UdpWorld.answer p u).2.sent.length := by
  induction p generalizing u n with
  | pure a => exact ⟨n, rfl, rfl⟩
  | fail e => exact ⟨n, rfl, rfl⟩
  | halt => exact ⟨n, rfl, rfl⟩
  | ask op next ih =>
    by_cases hsend : ∃ target dg, op = .sendUdp target dg
    · obtain ⟨target, dg, rfl⟩ := hsend
      have hnext : exec UdpWorld.answer (.ask (.sendUdp target dg) next) u =
          exec UdpWorld.answer (next true) { u with sent := u.sent ++ [dg] } := rfl
      rw [hnext] at h ⊢
      have hle := sent_exec_le (next true) { u with sent := u.sent ++ [dg] }
      simp only [List.length_append, List.length_singleton] at hle
      have hfirst : refuses n = false := h 0 (by omega)
      obtain ⟨m, hrun, hm⟩ := ih true { u with sent := u.sent ++ [dg] } (n + 1) (fun i hi => by
        simp only [List.length_append, List.length_singleton] at hi
        rw [Nat.add_assoc]
        exact h (1 + i) (by omega))
      simp only [List.length_append, List.length_singleton] at hm
      refine ⟨m, ?_, by omega⟩
      rw [← hrun]
      refine exec_ask_of_some ?_
      show (if refuses n then _ else _) = _
      rw [hfirst]
      rfl
    · have hop : ∀ target dg, op ≠ .sendUdp target dg :=
        fun target dg h => hsend ⟨target, dg, h⟩
      obtain ⟨hsame, hsent⟩ := answer_of_not_send hop refuses u n
      cases hans : UdpWorld.answer op u with
      | none =>
        rw [exec_ask_of_none hans]
        refine ⟨n, exec_ask_of_none ?_, rfl⟩
        rw [hsame, hans]
        rfl
      | some r =>
        obtain ⟨x, u'⟩ := r
        rw [exec_ask_of_some hans] at h ⊢
        have hlen : u'.sent = u.sent := hsent _ hans
        rw [← hlen] at h ⊢
        obtain ⟨m, hrun, hm⟩ := ih x u' n h
        refine ⟨m, ?_, hm⟩
        rw [← hrun]
        refine exec_ask_of_some ?_
        rw [hsame, hans]
        rfl

/-! ## The first refused datagram -/

/-- Among so many datagrams one is refused. -/
def Refused (refuses : ℕ → Bool) (n k : ℕ) : Prop := ∃ i, i < k ∧ refuses (n + i) = true

variable {refuses : ℕ → Bool}

/-- The inner loop fails at it, and nothing has happened but sends. -/
theorem exec_flushLoop_refused (target : SocketAddr) (fuel : ℕ) (buf : List UInt8) (u : UdpWorld)
    (n : ℕ)
    (h : Refused refuses n (nonempty (Deframe.deframeLoop datagramParse fuel buf).2).length) :
    ∃ w, exec (RefusingWorld.answer refuses) (flushDatagrams target fuel buf) ⟨u, n⟩ =
      (.failed .io, w) ∧ w.udp.events = u.events := by
  induction fuel generalizing buf u n with
  | zero =>
    obtain ⟨i, hi, -⟩ := h
    exact absurd hi (Nat.not_lt_zero i)
  | succ fuel ih =>
    rw [flushDatagrams]
    rw [Deframe.deframeLoop, datagramParse] at h
    rcases htake : takeDatagram buf with _ | ⟨dg, rest⟩
    · rw [htake] at h
      obtain ⟨i, hi, -⟩ := h
      exact absurd hi (Nat.not_lt_zero i)
    · rw [htake] at h
      dsimp only at h ⊢
      by_cases hempty : dg = []
      · rw [if_pos hempty]
        refine ih rest u n ?_
        rw [hempty] at h
        exact h
      · rw [if_neg hempty]
        by_cases hfirst : refuses n = true
        · refine ⟨⟨u, n + 1⟩, ?_, rfl⟩
          have hans : RefusingWorld.answer refuses (.sendUdp target dg) ⟨u, n⟩ =
              some (false, ⟨u, n + 1⟩) := if_pos hfirst
          exact exec_ask_of_some hans
        · have hans : RefusingWorld.answer refuses (.sendUdp target dg) ⟨u, n⟩ =
              some (true, ⟨{ u with sent := u.sent ++ [dg] }, n + 1⟩) := if_neg hfirst
          obtain ⟨i, hi, hrefused⟩ := h
          rw [nonempty, List.filter_cons_of_pos (by simpa using hempty), List.length_cons] at hi
          obtain ⟨j, rfl⟩ : ∃ j, i = j + 1 := by
            refine Nat.exists_eq_succ_of_ne_zero fun hzero => hfirst ?_
            rwa [hzero, Nat.add_zero] at hrefused
          obtain ⟨w, hrun, hevents⟩ := ih rest { u with sent := u.sent ++ [dg] } (n + 1)
            ⟨j, Nat.lt_of_succ_lt_succ hi, by rwa [Nat.add_assoc, Nat.add_comm 1]⟩
          refine ⟨w, ?_, hevents⟩
          rw [← hrun]
          exact exec_ask_of_some hans

/-- Of two batches one has a refused datagram. -/
theorem Refused.add {n a b : ℕ} (h : Refused refuses n (a + b)) :
    Refused refuses n a ∨ Refused refuses (n + a) b := by
  obtain ⟨i, hi, hrefused⟩ := h
  by_cases hlt : i < a
  · exact Or.inl ⟨i, hlt, hrefused⟩
  · refine Or.inr ⟨i - a, by omega, ?_⟩
    rwa [Nat.add_assoc, Nat.add_sub_cancel' (Nat.not_lt.mp hlt)]

/-- The relay has come to a rest in the same way as the other, with the same behind it. -/
structure KeepsRelaying (r : Stop Op ProxyError Unit × RefusingWorld)
    (r₀ : Stop Op ProxyError Unit × UdpWorld) : Prop where
  stop : r.1 = r₀.1
  events : r.2.udp.events = r₀.2.events
  written : r.2.udp.written = r₀.2.written

/-- A relay whose socket refuses nothing fails only for an event it has seen. -/
theorem events_lt_of_failed (target : SocketAddr) (fuel : ℕ) (inbuf : List UInt8) (u : UdpWorld)
    (h : (exec UdpWorld.answer (udpRelayLoop target (fuel + 1) inbuf false) u).1 = .failed .io) :
    (exec UdpWorld.answer (udpRelayLoop target (fuel + 1) inbuf false) u).2.events.length <
      u.events.length := by
  obtain ⟨rest, -, hflush⟩ := exec_flushDatagrams target inbuf u
  rw [udpRelayLoop, exec_bind_of_returned _ hflush] at h ⊢
  obtain ⟨events, sent, written⟩ := u
  cases events with
  | nil => cases h
  | cons event es =>
    -- the event is gone, and what follows brings none back
    exact Nat.lt_succ_of_le (events_exec_le _ ⟨es, sent ++ nonempty (datagrams inbuf), written⟩)

/-- **The relay does not survive a refused datagram.**  The induction is on the fuel, as for the
relay whose socket refuses nothing: a turn either flushes the same as there, or it is the last. -/
theorem not_keepsRelaying (target : SocketAddr) (fuel : ℕ) (inbuf : List UInt8) (u : UdpWorld)
    (n : ℕ) (hlt : u.events.length < fuel)
    (h : Refused refuses n (nonempty (datagrams (inbuf ++ tunnelBytes u.events))).length) :
    ¬ KeepsRelaying
      (exec (RefusingWorld.answer refuses) (udpRelayLoop target fuel inbuf false) ⟨u, n⟩)
      (exec UdpWorld.answer (udpRelayLoop target fuel inbuf false) u) := by
  induction fuel generalizing inbuf u n with
  | zero => exact absurd hlt (Nat.not_lt_zero _)
  | succ fuel ih =>
    by_cases hnow : Refused refuses n (nonempty (datagrams inbuf)).length
    · obtain ⟨w, hfail, hevents⟩ := exec_flushLoop_refused target inbuf.length inbuf u n hnow
      have hrun : exec (RefusingWorld.answer refuses) (udpRelayLoop target (fuel + 1) inbuf false)
          ⟨u, n⟩ = (.failed .io, w) := exec_bind_of_failed _ hfail
      rintro ⟨hstop, hsame, -⟩
      rw [hrun] at hstop hsame
      have hgone := events_lt_of_failed target fuel inbuf u hstop.symm
      rw [← hsame, hevents] at hgone
      exact absurd hgone (Nat.lt_irrefl _)
    · obtain ⟨rest, hrest, hflush⟩ := exec_flushDatagrams target inbuf u
      obtain ⟨m, hflush', hm⟩ := exec_refusing_eq refuses
        (flushDatagrams target inbuf.length inbuf) u n (fun i hi => by
          rw [hflush, List.length_append] at hi
          exact Bool.eq_false_iff.mpr fun hrefused => hnow ⟨i, by omega, hrefused⟩)
      rw [hflush, List.length_append] at hm
      rw [hflush] at hflush'
      have hm' : m = n + (nonempty (datagrams inbuf)).length := by omega
      have hlater : ∀ x, Refused refuses n (nonempty (datagrams (inbuf ++ x))).length →
          Refused refuses m (nonempty (datagrams (rest ++ x))).length := by
        intro x hx
        rw [datagrams_append hrest, nonempty, List.filter_append, List.length_append] at hx
        rw [hm']
        exact hx.add.resolve_left hnow
      have hnever : ¬ Refused refuses n (nonempty (datagrams (inbuf ++ []))).length := by
        rwa [List.append_nil]
      rw [udpRelayLoop, exec_bind_of_returned _ hflush, exec_bind_of_returned _ hflush']
      obtain ⟨events, sent, written⟩ := u
      cases events with
      | nil => exact absurd h hnever
      | cons event es =>
        have hlen : es.length < fuel := by simpa using hlt
        cases event with
        | idle => exact absurd h hnever
        | tunnel chunk =>
          cases chunk with
          | none => exact absurd h hnever
          | some chunk =>
            cases chunk with
            | none => exact absurd h hnever
            | some pt =>
              have hrest' := hlater (pt ++ tunnelBytes es) h
              rw [← List.append_assoc] at hrest'
              exact ih (rest ++ pt) ⟨es, sent ++ nonempty (datagrams inbuf), written⟩ m hlen hrest'
        | sock datagram =>
          cases datagram with
          | none => exact absurd h hnever
          | some data =>
            exact ih rest ⟨es, sent ++ nonempty (datagrams inbuf),
              written ++ [datagramFrame data]⟩ m hlen (hlater (tunnelBytes es) h)

/-! ## The path that ignores the error -/

/-- The same network, but nothing is refused. -/
def MuxEnv.reliable (env : MuxEnv) : MuxEnv := { env with delivers := fun _ _ => true }

/-- Whether an action happens: a send that is refused does not. -/
def MuxEnv.happens (env : MuxEnv) (n : ℕ) : Action → Bool
  | .send via _ => env.delivers n via
  | _ => true

/-- The entry of a frame without the sends that are refused. -/
def Handled.withoutLost (env : MuxEnv) (h : Handled) : Handled :=
  { h with actions := h.actions.filter (env.happens h.index) }

def Relay.withoutLost (env : MuxEnv) (s : Relay) : Relay :=
  { s with log := s.log.map (Handled.withoutLost env) }

section Reliable

variable (env : MuxEnv) (router : Routing.Router) (outbounds : Outbounds)

theorem hand_reliable (n : ℕ) (via : Via) (data : List UInt8) :
    hand env n via data = (hand env.reliable n via data).filter (env.happens n) := by
  show (if env.delivers n via then [Action.send via data] else []) =
    [Action.send via data].filter (env.happens n)
  rw [List.filter_cons]
  rfl

/-- A lookup happens in any case. -/
theorem resolve_reliable (n : ℕ) (t : Addr) :
    resolve env.reliable n t = resolve env n t ∧
      (resolve env n t).2.filter (env.happens n) = (resolve env n t).2 := by
  cases t <;> exact ⟨rfl, rfl⟩

theorem sendUntargeted_reliable (n : ℕ) (sess : UdpSession) (data : List UInt8) :
    sendUntargeted env n sess data =
      (sendUntargeted env.reliable n sess data).filter (env.happens n) := by
  unfold sendUntargeted
  split
  · split
    · exact hand_reliable env n _ data
    · rfl
  · split
    · exact hand_reliable env n _ data
    · rfl

theorem sendChained_reliable (n : ℕ) (sess : UdpSession) (chain : ChainOutbound) (t : Addr)
    (data : List UInt8) :
    sendChained env n sess chain t data =
      ((sendChained env.reliable n sess chain t data).1,
        (sendChained env.reliable n sess chain t data).2.filter (env.happens n)) := by
  obtain ⟨hsame, hlooked⟩ := resolve_reliable env n t
  unfold sendChained
  rw [hsame]
  rcases hres : resolve env n t with ⟨_ | addr, looked⟩
  · rw [hres] at hlooked
    simp only [hlooked]
  · rw [hres] at hlooked
    simp only at hlooked ⊢
    cases sess.chain.lookup addr with
    | some link => simp only [List.filter_append, hlooked, ← hand_reliable]
    | none =>
      show (if env.dialUdp n chain (endpointOf t) then _ else _) =
        ((if env.dialUdp n chain (endpointOf t) then _ else _ : UdpSession × List Action).1,
          (if env.dialUdp n chain (endpointOf t) then _ else _ : UdpSession × List Action).2.filter
            (env.happens n))
      split
      · simp only [List.filter_append, hlooked, ← hand_reliable]
        rfl
      · simp only [List.filter_append, hlooked]
        rfl

theorem sendLocal_reliable (n : ℕ) (sess : UdpSession) (t : Addr) (data : List UInt8) :
    sendLocal env n sess t data =
      ((sendLocal env.reliable n sess t data).1,
        (sendLocal env.reliable n sess t data).2.filter (env.happens n)) := by
  obtain ⟨hsame, hlooked⟩ := resolve_reliable env n t
  have hopen : ∀ ipv6, openDirect env.reliable n ipv6 = openDirect env n ipv6 := fun _ => rfl
  unfold sendLocal
  rw [hsame]
  rcases hres : resolve env n t with ⟨_ | addr, looked⟩
  · rw [hres] at hlooked
    simp only [hlooked]
  · rw [hres] at hlooked
    simp only [hopen] at hlooked ⊢
    cases sess.direct with
    | some d => simp only [List.filter_append, hlooked, ← hand_reliable]
    | none =>
      cases openDirect env n addr.isIpv6 with
      | some d =>
        simp only [List.filter_append, hlooked, ← hand_reliable]
        rfl
      | none =>
        simp only [List.filter_append, hlooked]
        rfl

/-- A frame does the same to its sub-session, and all of its actions but the refused sends. -/
theorem serve_reliable (n : ℕ) (sess : UdpSession) (f : Frame) :
    serve env router outbounds n sess f =
      ((serve env.reliable router outbounds n sess f).1,
        (serve env.reliable router outbounds n sess f).2.filter (env.happens n)) := by
  unfold serve
  cases f.data with
  | none => rfl
  | some data =>
    unfold sendDatagram
    cases f.target with
    | none => exact Prod.ext rfl (sendUntargeted_reliable env n sess data)
    | some t =>
      simp only
      cases outbounds.get (router.route (endpointOf t)) with
      | some chain => exact sendChained_reliable env n sess chain t data
      | none => exact sendLocal_reliable env n sess t data

theorem dispatch_withoutLost (s : Relay) (f : Frame) :
    dispatch env router outbounds (s.withoutLost env) f =
      (dispatch env.reliable router outbounds s f).withoutLost env := by
  have hlen : (s.withoutLost env).log.length = s.log.length := List.length_map _
  unfold dispatch
  simp only [hlen]
  split
  · have hserve := serve_reliable env router outbounds s.log.length (s.session f.sid) f
    have hsession : (s.withoutLost env).session f.sid = s.session f.sid := rfl
    rw [hsession, hserve]
    simp only [Relay.withoutLost, List.map_append]
    rfl
  · split
    · simp only [Relay.withoutLost, List.map_append]
      rfl
    · split
      · simp only [Relay.withoutLost, List.map_append]
        rfl
      · rfl

theorem drainLoop_withoutLost (fuel : ℕ) (s : Relay) :
    drainLoop env router outbounds fuel (s.withoutLost env) =
      (drainLoop env.reliable router outbounds fuel s).withoutLost env := by
  induction fuel generalizing s with
  | zero => rfl
  | succ fuel ih =>
    have hsame : (s.withoutLost env).inbuf = s.inbuf := rfl
    rw [drainLoop, drainLoop, hsame]
    rcases parseFrame s.inbuf with e | _ | ⟨f, rest⟩
    · rfl
    · rfl
    · have hturn := dispatch_withoutLost env router outbounds { s with inbuf := rest } f
      have hinbuf : { s.withoutLost env with inbuf := rest } =
        Relay.withoutLost env { s with inbuf := rest } := rfl
      simp only [hinbuf, hturn]
      show (if (dispatch env.reliable router outbounds { s with inbuf := rest } f).ended.isSome
        then _ else _) = _
      split
      · rfl
      · exact ih _

theorem drain_withoutLost (s : Relay) :
    drain env router outbounds (s.withoutLost env) =
      (drain env.reliable router outbounds s).withoutLost env :=
  drainLoop_withoutLost env router outbounds s.inbuf.length s

theorem start_withoutLost (visionUuid : Option Vision.Uuid) (leftover : List UInt8) :
    start env router outbounds visionUuid leftover =
      (start env.reliable router outbounds visionUuid leftover).withoutLost env :=
  drain_withoutLost env router outbounds (Relay.feed
    ⟨visionUuid.map Vision.Unpadder.new, visionUuid, [], ∅, [], [], none⟩ leftover)

theorem step_withoutLost (s : Relay) (e : Event) :
    step env router outbounds (s.withoutLost env) e =
      (step env.reliable router outbounds s e).map (Relay.withoutLost env) := by
  unfold step
  show (if s.ended.isSome then none else _) = _
  split
  · rfl
  · cases e with
    | chunk pt => exact congrArg some (drain_withoutLost env router outbounds (s.feed pt))
    | eof => rfl
    | idle => rfl
    | readFailed => rfl
    | response sid src data draw ok =>
      have hrespond : (s.withoutLost env).respond (keepFrame sid src data) draw =
          (s.respond (keepFrame sid src data) draw).withoutLost env := by
        unfold Relay.respond Relay.withoutLost
        simp only
        split <;> rfl
      simp only [hrespond]
      split
      · exact congrArg some (drain_withoutLost env router outbounds _)
      · rfl

/-- **Refused datagrams are missing, and nothing else differs.** -/
theorem run_withoutLost (events : List Event) (s : Relay) :
    run (step env router outbounds) (s.withoutLost env) events =
      (run (step env.reliable router outbounds) s events).map (Relay.withoutLost env) := by
  induction events generalizing s with
  | nil => rfl
  | cons e es ih =>
    rw [run, run, step_withoutLost]
    cases step env.reliable router outbounds s e with
    | none => rfl
    | some t => exact ih t

end Reliable

/-! ## Both paths -/

/-- The datagrams of a list that are not refused. -/
def accepted (refuses : ℕ → Bool) (ds : List (List UInt8)) : List (List UInt8) :=
  (ds.zipIdx.filter fun d => !refuses d.2).map Prod.fst

theorem accepted_eq_self {ds : List (List UInt8)} (h : ∀ i, i < ds.length → refuses i = false) :
    accepted refuses ds = ds := by
  unfold accepted
  rw [List.filter_eq_self.mpr, List.zipIdx_map_fst]
  intro d hd
  rw [h d.2 (by simpa using (List.mem_zipIdx hd).2.1)]
  rfl

/-- **A socket that refuses some datagrams makes no other difference.**  The others are sent in
their order, and the relay comes to a rest as it would have. -/
structure Undisturbed (refuses : ℕ → Bool) (ds : List (List UInt8))
    (r : Stop Op ProxyError Unit × RefusingWorld)
    (r₀ : Stop Op ProxyError Unit × UdpWorld) : Prop where
  sent : r.2.udp.sent = accepted refuses (nonempty ds)
  goes_on : KeepsRelaying r r₀

/-- **`vision_udp_relay` is undisturbed by refused datagrams exactly if there are none.**  For
the XUDP relay, they are missing from what its frames did, and nothing else differs. -/
theorem udp_send_errors_iff (target : SocketAddr) (ds : List (List UInt8)) (leftover : List UInt8)
    (events : List UdpEvent) (refuses : ℕ → Bool) (fuel : ℕ) :
    (events.length < fuel → (∀ d ∈ ds, d.length ≤ 65535) →
      leftover ++ tunnelBytes events = (ds.map datagramFrame).flatten →
      let r := exec (RefusingWorld.answer refuses) (visionUdpRelay fuel target leftover)
        ⟨⟨events, [], []⟩, 0⟩
      let r₀ := exec UdpWorld.answer (visionUdpRelay fuel target leftover) ⟨events, [], []⟩
      r₀.1 ≠ .halted ∧ (Undisturbed refuses ds r r₀ ↔
        ∀ i, i < (nonempty ds).length → refuses i = false)) ∧
    ∀ (env : MuxEnv) (router : Routing.Router) (outbounds : Outbounds)
      (visionUuid : Option Vision.Uuid) (leftover : List UInt8) (events : List Event),
      run (step env router outbounds) (start env router outbounds visionUuid leftover) events =
        (run (step env.reliable router outbounds)
          (start env.reliable router outbounds visionUuid leftover) events).map
            (Relay.withoutLost env) := by
  refine ⟨?_, fun env router outbounds visionUuid leftover events => ?_⟩
  · intro hfuel hds hbytes
    have hrun := exec_visionUdpRelay target leftover events hfuel
    rw [hbytes, datagrams_flatten hds] at hrun
    refine ⟨hrun.not_halted, fun hsame => ?_, fun hnone => ?_⟩
    · intro i hi
      refine Bool.eq_false_iff.mpr fun hrefused => ?_
      have hamong : Refused refuses 0
          (nonempty (datagrams (leftover ++ tunnelBytes events))).length := by
        rw [hbytes, datagrams_flatten hds]
        exact ⟨i, hi, by rwa [Nat.zero_add]⟩
      exact not_keepsRelaying target fuel leftover ⟨events, [], []⟩ 0 hfuel hamong hsame.goes_on
    · obtain ⟨m, hsame, -⟩ := exec_refusing_eq refuses (visionUdpRelay fuel target leftover)
        ⟨events, [], []⟩ 0 (fun i hi => by
          rw [hrun.sent] at hi
          simp only [List.length_nil, Nat.zero_add, List.nil_append] at hi ⊢
          exact hnone i hi)
      rw [hsame]
      refine ⟨?_, rfl, rfl, rfl⟩
      rw [accepted_eq_self hnone]
      exact hrun.sent
  · rw [start_withoutLost]
    exact run_withoutLost env router outbounds events _

/-- The name server of the example. -/
def nameServer : SocketAddr := ⟨.v4 (Octets.fromSlice 4 [10, 0, 0, 1]), 53⟩

theorem udp_send_errors_iff_second :
    Undisturbed (fun i => i == 2) [[7], [], [8]]
      (exec (RefusingWorld.answer fun i => i == 2)
        (visionUdpRelay 2 nameServer [0, 1, 7, 0, 0, 0, 1, 8]) ⟨⟨[.idle], [], []⟩, 0⟩)
      (exec UdpWorld.answer (visionUdpRelay 2 nameServer [0, 1, 7, 0, 0, 0, 1, 8])
        ⟨[.idle], [], []⟩) :=
  ((udp_send_errors_iff nameServer [[7], [], [8]] [0, 1, 7, 0, 0, 0, 1, 8] [.idle]
    (fun i => i == 2) 2).1 (by decide) (by decide) rfl).2.mpr (by decide)

/-- The first of two datagrams is refused: the second is not sent and the relay fails, where the
relay of a socket that refuses nothing sends both and waits for more. -/
theorem refused_datagram_ends_relay :
    let p := visionUdpRelay 3 nameServer [0, 1, 7]
    let events : List UdpEvent := [.tunnel (some (some [0, 1, 8]))]
    (exec (RefusingWorld.answer fun i => i == 0) p ⟨⟨events, [], []⟩, 0⟩).1 = .failed .io ∧
    (exec (RefusingWorld.answer fun i => i == 0) p ⟨⟨events, [], []⟩, 0⟩).2.udp.sent = [] ∧
    (exec UdpWorld.answer p ⟨events, [], []⟩).1 = .waits (.selectUdp nameServer) ∧
    (exec UdpWorld.answer p ⟨events, [], []⟩).2.sent = [[7], [8]] :=
  ⟨rfl, rfl, rfl, rfl⟩

end Mux
end HoldTheDonut
